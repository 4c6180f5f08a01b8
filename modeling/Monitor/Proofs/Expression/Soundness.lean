import Monitor.Proofs.Expression.Completeness

namespace Monitor.Expression

open Attempt

variable {m : Machine}

def IsPlus (ts : List Token) : Prop :=
  ∃ n, ts = List.replicate n (.operator .add)

/-- What has been read of a level without a waiting sign. Each waiting operator has a chain on its
left, of which the value waits with it, and binds tighter than the operator before. -/
def Pending (m : Machine) : List Operator → List Int64 → List Token → Prop
  | [], [], ts => IsPlus ts
  | op :: operators, v :: values, ts => ∃ us vs t, ts = us ++ vs ++ [.operator op] ∧
      Pending m operators values us ∧ (∀ below ∈ operators.head?, below.level < op.level) ∧
      Derives (.chain operators.isEmpty op.level) vs t ∧ t.value m.memory = some v
  | _, _, _ => False

def Level.Reads (m : Machine) (level : Level) (ts : List Token) : Prop :=
  match level.sign with
  | none => Pending m level.operators level.values ts
  | some sign => level.operators = [] ∧ level.values = [] ∧
      ∃ us, IsPlus us ∧ ts = us ++ [sign.token]

def Surrounds (m : Machine) : List Level → List Token → Prop
  | [], ts => ts = []
  | level :: outer, ts => ∃ us vs, ts = us ++ vs ++ [.opening] ∧ Surrounds m outer us ∧
      level.Reads m vs

def ReadsOperand (m : Machine) : Option Int64 → List Token → Prop
  | none, ts => ts = []
  | some v, ts => ∃ t, Derives .operand ts t ∧ t.value m.memory = some v

/-- What an evaluation has read so far is the front of an expression. -/
def Progress.Reads (m : Machine) (p : Progress) (ts : List Token) : Prop :=
  ∃ us vs ws, ts = us ++ vs ++ ws ∧ Surrounds m p.outer us ∧ p.level.Reads m vs ∧
    ReadsOperand m p.operand ws

theorem reduce_pending {op : Operator} {operators : List Operator} {values : List Int64}
    {ts us : List Token} {t : Term} {v : Int64} {n : Nat} {level : Level}
    (hp : Pending m operators values ts) (hd : Derives (.chain operators.isEmpty n) us t)
    (hv : t.value m.memory = some v) (hop : op.level ≤ n)
    (hn : ∀ below ∈ operators.head?, below.level < n)
    (h : Level.reduce op operators (v :: values) = .ok level) :
    ∃ more rest, level = ⟨none, op :: more, rest⟩ ∧
      Pending m (op :: more) rest (ts ++ us ++ [.operator op]) := by
  induction operators generalizing values ts us t v n with
  | nil =>
    cases h
    exact ⟨[], _, rfl, ts, us, t, rfl, by cases values <;> simp_all [Pending], by simp, hd.weaken hop, hv⟩
  | cons below operators ih =>
    have hlt := hn below rfl
    cases values with
    | nil => simp [Pending] at hp
    | cons a values =>
      have hp' := hp
      obtain ⟨ts', us', left, rfl, hrest, hrise, hl, ha⟩ := hp'
      rw [Level.reduce] at h
      split at h
      · rename_i hb
        cases h
        refine ⟨_, _, rfl, _, us, t, rfl, hp, ?_, hd.weaken hop, hv⟩
        rintro _ ⟨⟩
        exact hb
      · rename_i hb
        rw [Operator.apply_eq_meaning] at h
        cases hc : below.meaning? a v with
        | none =>
          rw [hc] at h
          cases h
        | some c =>
          rw [hc] at h
          have hbin : Derives (.chain operators.isEmpty below.level) (us' ++ .operator below :: us)
              (.binary below left t) := .binary hl (hd.weaken hlt) (Nat.le_refl _)
          have hval : Term.value m.memory (.binary below left t) = some c := by
            simp [Term.value, ha, hv, hc]
          obtain ⟨more, rest, rfl, hm⟩ := ih hrest hbin hval (by omega) hrise h
          refine ⟨more, rest, rfl, ?_⟩
          simpa using hm

theorem Pending.isPlus {values : List Int64} {ts : List Token} (h : Pending m [] values ts) :
    values = [] ∧ IsPlus ts := by
  cases values with
  | nil => exact ⟨rfl, h⟩
  | cons v values => exact h.elim

theorem Level.Reads.push {level next : Level} {op : Operator} {v : Int64} {ts us : List Token}
    {t : Term} (h : level.Reads m ts) (hd : Derives .operand us t) (hv : t.value m.memory = some v)
    (hp : level.push op v = .ok next) :
    ∃ more rest, next = ⟨none, op :: more, rest⟩ ∧
      Pending m (op :: more) rest (ts ++ us ++ [.operator op]) := by
  obtain ⟨sign, operators, values⟩ := level
  cases sign with
  | none =>
    -- An operand is a chain at every level, so one above both neighbours will do.
    let n := operators.head?.elim op.level fun below => op.level + below.level + 1
    refine reduce_pending (n := n) h (.operand hd) hv ?_ ?_ hp
    · cases operators <;> simp [n]; omega
    · intro below hb
      simp only [n, Option.mem_def.1 hb, Option.elim_some]
      omega
  | some sign =>
    obtain ⟨rfl, rfl, vs, hvs, rfl⟩ := h
    cases hp
    have hs : Term.value m.memory (.signed sign t) = some (sign.apply v) := by
      simp [Term.value, hv, sign.apply_eq_meaning]
    exact ⟨[], _, rfl, vs, sign.token :: us, _, by simp, hvs, by simp, .signed sign hd, hs⟩

theorem Derives.whole_of_isPlus {ts us : List Token} {t : Term} (hp : IsPlus ts)
    (h : Derives (.chain true 0) us t) : Derives .whole (ts ++ us) t := by
  obtain ⟨n, rfl⟩ := hp
  induction n with
  | zero => exact .chain h
  | succ n ih => exact .plus ih

theorem putOperator_eq_ok {p q : Progress} {op : Operator} {v : Int64}
    (h : p.putOperator op v = .ok q) :
    ∃ level, p.level.push op v = .ok level ∧ q = { p with level, operand := none } := by
  rw [Progress.putOperator] at h
  split at h
  · cases h
  · split at h
    · cases h
    · obtain ⟨level, hl, h⟩ := bind_eq_ok.1 h
      cases h
      exact ⟨level, hl, rfl⟩

theorem Level.Reads.total {p : Progress} {v w : Int64} {vs ws : List Token}
    (h : p.level.Reads m vs) (hw : ReadsOperand m (some v) ws) (ht : p.total v = .ok w) :
    ∃ t, Derives .whole (vs ++ ws) t ∧ t.value m.memory = some w := by
  obtain ⟨t, hd, hv⟩ := hw
  rw [Progress.total, bind_eq_ok] at ht
  obtain ⟨q, hq, ht⟩ := ht
  obtain ⟨level, hp, rfl⟩ := putOperator_eq_ok hq
  obtain ⟨more, rest, rfl, hm⟩ := h.push hd hv hp
  -- No operator binds less tightly than the last one, so it waits alone.
  cases more with
  | cons below more =>
    cases rest with
    | nil => exact hm.elim
    | cons a rest =>
      obtain ⟨-, -, -, -, -, hlt, -⟩ := hm
      exact absurd (hlt below rfl) (by simp [Operator.level])
  | nil =>
    cases rest with
    | nil => exact hm.elim
    | cons a rest =>
      cases ht
      obtain ⟨us, us', t', he, hrest, -, hd', ha⟩ := hm
      rw [List.append_left_inj] at he
      exact ⟨t', by rw [he]; exact .whole_of_isPlus hrest.isPlus.2 hd', ha⟩

theorem Level.Reads.of_operatorCount {level : Level} {ts : List Token} (h : level.Reads m ts)
    (hc : ¬0 < level.operatorCount) : level = {} ∧ IsPlus ts := by
  obtain ⟨sign, operators, values⟩ := level
  cases sign with
  | some sign => simp [operatorCount] at hc
  | none =>
    have ho : operators = [] := by simpa [operatorCount] using hc
    subst ho
    obtain ⟨rfl, hts⟩ := Pending.isPlus h
    exact ⟨rfl, hts⟩

theorem Progress.Reads.putSign {p q : Progress} {ts : List Token} {sign : Sign} (h : p.Reads m ts)
    (hs : p.putSign sign = .ok q) : q.Reads m (ts ++ [sign.token]) := by
  obtain ⟨us, vs, ws, rfl, hu, hl, hw⟩ := h
  unfold Progress.putSign at hs
  split at hs
  · cases hs
  · rename_i hc
    rw [Bool.or_eq_true, not_or, decide_eq_true_eq] at hc
    split at hs
    · cases hs
    · cases hs
      have hp : p.operand = none := by simpa using hc.1
      rw [hp] at hw
      subst hw
      obtain ⟨hlevel, hvs⟩ := hl.of_operatorCount hc.2
      refine ⟨us, vs ++ [sign.token], [], by simp, hu, ?_, by rw [hp]; rfl⟩
      rw [hlevel]
      exact ⟨rfl, rfl, vs, hvs, rfl⟩

theorem Progress.Reads.putPlus {p q : Progress} {ts : List Token} (h : p.Reads m ts)
    (hp : p.operand = none) (hs : p.putPlus = .ok q) : q.Reads m (ts ++ [.operator .add]) := by
  obtain ⟨us, vs, ws, rfl, hu, hl, hw⟩ := h
  unfold Progress.putPlus at hs
  split at hs
  · cases hs
  · rename_i hc
    cases hs
    rw [hp] at hw
    subst hw
    obtain ⟨hlevel, n, rfl⟩ := hl.of_operatorCount hc
    refine ⟨us, List.replicate (n + 1) (.operator .add), [], by simp [List.replicate_succ'], hu, ?_,
      by rw [hp]; rfl⟩
    rw [hlevel]
    exact ⟨n + 1, rfl⟩

theorem Progress.Reads.putOperator {p q : Progress} {ts : List Token} {op : Operator} {v : Int64}
    (h : p.Reads m ts) (hp : p.operand = some v) (hs : p.putOperator op v = .ok q) :
    q.Reads m (ts ++ [.operator op]) := by
  obtain ⟨us, vs, ws, rfl, hu, hl, hw⟩ := h
  rw [hp] at hw
  obtain ⟨t, hd, hv⟩ := hw
  obtain ⟨level, hpush, rfl⟩ := putOperator_eq_ok hs
  obtain ⟨more, rest, rfl, hm⟩ := hl.push hd hv hpush
  exact ⟨us, vs ++ ws ++ [Token.operator op], [], by simp, hu, hm, rfl⟩

theorem Progress.Reads.openLevel {p q : Progress} {ts : List Token} (h : p.Reads m ts)
    (hs : p.openLevel = .ok q) : q.Reads m (ts ++ [.opening]) := by
  obtain ⟨us, vs, ws, rfl, hu, hl, hw⟩ := h
  unfold Progress.openLevel at hs
  split at hs
  · cases hs
  · rename_i hp
    split at hs
    · cases hs
    · cases hs
      rw [Option.not_isSome_iff_eq_none.1 hp] at hw
      subst hw
      exact ⟨us ++ vs ++ [.opening], [], [], by simp, ⟨us, vs, rfl, hu, hl⟩, ⟨0, rfl⟩, rfl⟩

theorem Progress.Reads.closeLevel {p q : Progress} {ts : List Token} (h : p.Reads m ts)
    (hs : result (closeLevel m p) = .ok q) : q.Reads m (ts ++ [.closing]) := by
  obtain ⟨us, vs, ws, rfl, hu, hl, hw⟩ := h
  cases hp : p.operand with
  | none => simp [Expression.closeLevel, hp] at hs
  | some v =>
    cases ho : p.outer with
    | nil => simp [Expression.closeLevel, hp, ho] at hs
    | cons level outer =>
      rw [result_closeLevel hp ho, bind_eq_ok] at hs
      obtain ⟨a, ht, hs⟩ := hs
      cases hs
      rw [hp] at hw
      rw [ho] at hu
      obtain ⟨t, hd, ha⟩ := hl.total hw ht
      obtain ⟨us', vs', rfl, hu', hl'⟩ := hu
      refine ⟨us', vs', .opening :: (vs ++ ws) ++ [.closing], by simp, hu', hl', _, .memory hd, ?_⟩
      rw [Term.value, ha]
      rfl

theorem Progress.Reads.step {p q : Progress} {ts : List Token} {t : Token} (h : p.Reads m ts)
    (hs : result (step m p t) = .ok q) : q.Reads m (ts ++ [t]) := by
  cases t with
  | operand value =>
    obtain ⟨us, vs, ws, rfl, hu, hl, hw⟩ := h
    cases hp : p.operand with
    | some v => simp [Expression.step, hp] at hs
    | none =>
      simp [Expression.step, hp] at hs
      rw [hp] at hw
      subst hs hw
      refine ⟨us, vs, [.operand value], by simp, hu, hl, _, .number value, ?_⟩
      rw [toInt64_toUInt64]
      rfl
  | operator op =>
    cases hp : p.operand with
    | some v =>
      exact h.putOperator hp (by simpa [Expression.step, ofExcept, Progress.operator, hp] using hs)
    | none =>
      simp only [Expression.step, ofExcept, result_mk, Progress.operator, hp] at hs
      cases op with
      | subtract => exact h.putSign hs
      | add => exact h.putPlus hp hs
      | or | and | xor | shiftRight | shiftLeft | multiply | divide => cases hs
  | complement => exact h.putSign hs
  | opening => exact h.openLevel hs
  | closing => exact h.closeLevel hs
  | unreadable => cases hs

theorem Progress.Reads.advance {p q : Progress} {ts us : List Token} (h : p.Reads m ts)
    (hs : advance m p us = .ok q) : q.Reads m (ts ++ us) := by
  induction us generalizing p ts with
  | nil =>
    cases hs
    simpa using h
  | cons t us ih =>
    rw [advance_cons, bind_eq_ok] at hs
    obtain ⟨r, hq, hs⟩ := hs
    simpa using ih (h.step hq) hs

theorem Progress.reads_empty : ({} : Progress).Reads m [] :=
  ⟨[], [], [], rfl, rfl, ⟨0, rfl⟩, rfl⟩

theorem readable_of_advance {p q : Progress} {ts : List Token} (h : advance m p ts = .ok q) :
    .unreadable ∉ ts := by
  induction ts generalizing p with
  | nil => simp
  | cons t ts ih =>
    rw [advance_cons, bind_eq_ok] at h
    obtain ⟨r, hq, h⟩ := h
    rw [List.mem_cons, not_or]
    refine ⟨?_, ih h⟩
    rintro rfl
    cases hq

theorem finish_eq_ok {p : Progress} {w : Int64} (h : finish p = .ok w) :
    ∃ v, p.operand = some v ∧ p.total v = .ok w ∧ p.outer = [] := by
  rw [finish] at h
  split at h
  · split at h <;> cases h
  · rename_i v hv
    obtain ⟨w, ht, h⟩ := bind_eq_ok.1 h
    split at h
    · rename_i ho
      cases h
      exact ⟨v, hv, ht, List.isEmpty_iff.1 ho⟩
    · cases h

theorem exists_of_outcome {scope : Scope} {text : String} {v : UInt32}
    (h : outcome scope text = .ok v) : ∃ ts t w, Splits scope text.toList ts ∧ IsExpression ts ∧
      Derives .whole ts t ∧ t.value scope.machine.memory = some w ∧ v = .ofInt w.toInt := by
  rw [outcome_eq, bind_eq_ok] at h
  obtain ⟨p, hp, h⟩ := h
  obtain ⟨us, vs, ws, hts, hu, hl, hw⟩ := Progress.reads_empty.advance hp
  obtain ⟨w, hf, h⟩ := bind_eq_ok.1 h
  obtain ⟨x, hx, ht, ho⟩ := finish_eq_ok hf
  cases h
  rw [ho] at hu
  cases hu
  rw [hx] at hw
  obtain ⟨t, hd, hv⟩ := hl.total hw ht
  rw [List.nil_append, List.nil_append] at hts
  have hs := splits_tokens 0 (readable_of_advance hp)
  rw [hts] at hs
  exact ⟨_, t, w, hs, isExpression_iff.2 ⟨t, hd⟩, hd, hv, rfl⟩

end Monitor.Expression

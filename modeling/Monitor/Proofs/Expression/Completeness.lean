import Monitor.Proofs.Expression.Advance

namespace Monitor.Expression

open Attempt

variable {m : Machine}

/-- A result is as stated, or fails for an undefined operation if one is stated to be there, or
fails for a full stack. -/
def Leads {α : Type} (x : Except Error α) (good : α → Prop) (undefined : Prop) : Prop :=
  match x with
  | .ok a => good a
  | .error .undefined => undefined
  | .error (.full _) => True
  | .error _ => False

namespace Leads

variable {α β : Type} {x : Except Error α} {f : α → Except Error β} {good : α → Prop}
  {good' : β → Prop} {u u' : Prop}

theorem bind (h : Leads x good u) (hf : ∀ a, good a → Leads (f a) good' u') (hu : u → u') :
    Leads (x >>= f) good' u' := by
  cases x with
  | ok a => exact hf a h
  | error e =>
    cases e with
    | undefined => exact hu h
    | full stack => trivial
    | empty | malformed | unbalanced | impossible => exact h

theorem mono {good' : α → Prop} (h : Leads x good u) (hg : ∀ a, good a → good' a) (hu : u → u') :
    Leads x good' u' := by
  cases x with
  | ok a => exact hg a h
  | error e =>
    cases e with
    | undefined => exact hu h
    | full stack => trivial
    | empty | malformed | unbalanced | impossible => exact h

end Leads

theorem leads_putOperator {p : Progress} {op : Operator} {value : Int64} {good : Progress → Prop}
    {u : Prop}
    (h : Leads (p.level.push op value) (fun l => good { p with level := l, operand := none }) u) :
    Leads (p.putOperator op value) good u := by
  unfold Progress.putOperator
  split
  · trivial
  · split
    · trivial
    · exact h.bind (fun _ hl => hl) id

theorem leads_total {p : Progress} {value : Int64} {good : Int64 → Prop} {u : Prop}
    (h : Leads (p.level.push .or value) (fun l => ∃ a rest, l.values = a :: rest ∧ good a) u) :
    Leads (p.total value) good u := by
  have hp : Leads (p.putOperator .or value)
      (fun q => ∃ a rest, q.level.values = a :: rest ∧ good a) u := leads_putOperator h
  refine hp.bind ?_ id
  rintro q ⟨a, rest, hq, ha⟩
  rw [hq]
  exact ha

/-- What follows a phrase finds its value there, if it has one: every operator that does not bind
tighter goes on as it would behind that value alone. -/
def Presents (n : Nat) (p : Progress) (value : Option Int64) (q : Progress) : Prop :=
  q.outer = p.outer ∧ ∃ x, q.operand = some x ∧
    ∀ op, op.level ≤ n → q.level.push op x = value.elim (.error .undefined) (p.level.push op)

/-- What reading a phrase leads to, from any progress that may go on with the phrase. -/
def Meets (m : Machine) (ts : List Token) (t : Term) : Phrase → Prop
  | .operand => ∀ p : Progress, p.operand = none →
    Leads (advance m p ts) (fun q => ∃ v, t.value m.memory = some v ∧ q = p.putOperand v)
      (t.value m.memory = none)
  | .chain signed n => ∀ p : Progress, p.operand = none → p.level.Accepts n →
    (signed = true → p.level = {}) →
      Leads (advance m p ts) (Presents n p (t.value m.memory)) (t.value m.memory = none)
  | .whole => ∀ p : Progress, p.operand = none → p.level = {} →
    Leads (advance m p ts) (Presents 0 p (t.value m.memory)) (t.value m.memory = none)

theorem meets_number (value : UInt32) : Meets m [.operand value] (.number value) .operand := by
  intro p hp
  simp [advance_cons, step, hp, toInt64_toUInt64, Leads, Term.value]

theorem meets_memory {ts : List Token} {t : Term} (h : Meets m ts t .whole) :
    Meets m (.opening :: ts ++ [.closing]) (.memory t) .operand := by
  intro p hp
  rw [List.cons_append, advance_cons, step, ofExcept, result_mk, Progress.openLevel, hp]
  by_cases hf : maxParentheses ≤ p.outer.length
  · simp [hf, Leads]
  · simp only [Option.isSome_none, Bool.false_eq_true, if_false, hf, ok_bind, advance_append]
    refine (h { level := {}, outer := p.level :: p.outer } rfl rfl).bind ?_ (by simp [Term.value])
    rintro q ⟨ho, x, hx, hpush⟩
    rw [advance_cons, step, result_closeLevel hx ho]
    have ht := hpush .or (Nat.le_refl 0)
    have hq : Leads (q.total x) (fun a => t.value m.memory = some a) (t.value m.memory = none) := by
      apply leads_total
      rw [ht]
      cases t.value m.memory with
      | none => rfl
      | some a => exact ⟨a, [], rfl, rfl⟩
    refine Leads.bind (hq.bind (fun a ha => ?_) id) (fun _ h => h) (by simp [Term.value])
    exact ⟨_, by rw [Term.value, ha]; rfl, rfl⟩

theorem meets_operand {signed : Bool} {n : Nat} {ts : List Token} {t : Term}
    (h : Meets m ts t .operand) : Meets m ts t (.chain signed n) := by
  intro p hp _ _
  refine (h p hp).mono ?_ id
  rintro q ⟨v, hv, rfl⟩
  exact ⟨rfl, v, rfl, fun op _ => by rw [hv]; rfl⟩

theorem result_step_sign {p : Progress} (hp : p.operand = none) (hl : p.level = {}) (sign : Sign) :
    result (step m p sign.token) =
      if maxOperators ≤ p.operatorCount then .error (.full .operators)
      else .ok { p with level := { sign := some sign } } := by
  have hc : p.level.operatorCount = 0 := by rw [hl]; rfl
  cases sign with
  | negate | complement =>
    simp only [Sign.token, step, ofExcept, result_mk, Progress.operator, Progress.putSign, hp, hc]
    simp [hl]

theorem meets_signed {n : Nat} {ts : List Token} {t : Term} (sign : Sign)
    (h : Meets m ts t .operand) : Meets m (sign.token :: ts) (.signed sign t) (.chain true n) := by
  intro p hp _ hl
  rw [advance_cons, result_step_sign hp (hl rfl)]
  by_cases hf : maxOperators ≤ p.operatorCount
  · simp [hf, Leads]
  · rw [if_neg hf, ok_bind]
    refine (h { p with level := { sign := some sign } } hp).mono ?_ (by simp [Term.value])
    rintro q ⟨v, hv, rfl⟩
    refine ⟨rfl, v, rfl, fun op _ => ?_⟩
    rw [Term.value, hv, hl rfl, ← show sign.apply = sign.meaning from funext sign.apply_eq_meaning]
    rfl

theorem meets_binary {signed : Bool} {n : Nat} {op : Operator} {ts us : List Token}
    {left right : Term} (hl : Meets m ts left (.chain signed op.level))
    (hr : Meets m us right (.chain false (op.level + 1))) (hn : n ≤ op.level) :
    Meets m (ts ++ .operator op :: us) (.binary op left right) (.chain signed n) := by
  intro p hp ha hs
  have ha' : p.level.Accepts op.level :=
    ⟨ha.sign, fun below hb => Nat.lt_of_lt_of_le (ha.loose below hb) hn⟩
  rw [advance_append]
  refine (hl p hp ha' hs).bind ?_ (by simp +contextual [Term.value])
  rintro q ⟨ho, x, hx, hpush⟩
  have hq := hpush op (Nat.le_refl _)
  have hstep : result (step m q (.operator op)) = q.putOperator op x := by
    simp [step, ofExcept, Progress.operator, hx]
  rw [advance_cons, hstep]
  cases hv : left.value m.memory with
  | none =>
    -- The operator makes what is before it apply, which fails.
    have hfail : Leads (q.putOperator op x) (fun _ => False) True := by
      apply leads_putOperator
      rw [hq, hv]
      trivial
    exact hfail.bind (fun _ h => h.elim) (by simp [Term.value, hv])
  | some a =>
    rw [hv, Option.elim_some, Level.push_of_accepts ha' (Nat.le_refl _)] at hq
    let waiting : Level := ⟨none, op :: p.level.operators, a :: p.level.values⟩
    have hput : Leads (q.putOperator op x)
        (fun r => r = { q with level := waiting, operand := none }) False := by
      apply leads_putOperator
      rw [hq]
      rfl
    refine hput.bind ?_ False.elim
    rintro _ rfl
    have hw : waiting.Accepts (op.level + 1) := ⟨rfl, by simp [waiting]⟩
    refine (hr _ rfl hw (by simp)).mono ?_ (by simp +contextual [Term.value])
    rintro r ⟨ho', y, hy, hpush'⟩
    refine ⟨ho'.trans ho, y, hy, fun op' h' => ?_⟩
    rw [hpush' op' (by omega)]
    have hsign : p.level = ⟨none, p.level.operators, p.level.values⟩ := by rw [← ha.sign]
    cases hb : right.value m.memory with
    | none => simp [Term.value, hv, hb]
    | some b =>
      simp only [Term.value, hv, hb, Option.elim_some, Option.bind_eq_bind, Option.bind_some, waiting]
      rw [Level.push_cons (by omega), ← hsign]

theorem meets_plus {ts : List Token} {t : Term} (h : Meets m ts t .whole) :
    Meets m (.operator .add :: ts) t .whole := by
  intro p hp hl
  have hc : p.level.operatorCount = 0 := by rw [hl]; rfl
  have hstep : result (step m p (.operator .add)) = .ok p := by
    simp [step, ofExcept, Progress.operator, Progress.putPlus, hp, hc]
  rw [advance_cons, hstep, ok_bind]
  exact h p hp hl

theorem Derives.meets {phrase : Phrase} {ts : List Token} {t : Term} (h : Derives phrase ts t) :
    Meets m ts t phrase := by
  induction h with
  | number value => exact meets_number value
  | memory _ ih => exact meets_memory ih
  | operand _ ih => exact meets_operand ih
  | signed sign _ ih => exact meets_signed sign ih
  | binary _ _ hn ihl ihr => exact meets_binary ihl ihr hn
  | chain _ ih => exact fun p hp hl => ih p hp (hl ▸ ⟨rfl, by simp⟩) fun _ => hl
  | plus _ ih => exact meets_plus ih

end Monitor.Expression

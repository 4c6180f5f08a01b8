import Monitor.Proofs.Expression.Capacity

namespace Monitor.Expression

theorem leads_outcome {scope : Scope} {text : String} {ts : List Token} {t : Term}
    (hs : Splits scope text.toList ts) (h : Derives .whole ts t) :
    Leads (outcome scope text)
      (fun v => ∃ w, t.value scope.machine.memory = some w ∧ v = .ofInt w.toInt)
      (t.value scope.machine.memory = none) := by
  rw [outcome_eq, tokens_of_splits hs]
  refine (h.meets {} rfl rfl).bind ?_ id
  rintro p ⟨ho, x, hx, hpush⟩
  have hp := hpush .or (Nat.le_refl 0)
  have ht : Leads (p.total x) (fun w => t.value scope.machine.memory = some w)
      (t.value scope.machine.memory = none) := by
    apply leads_total
    rw [hp]
    cases t.value scope.machine.memory with
    | none => rfl
    | some w => exact ⟨w, [], rfl, rfl⟩
  have hf : Leads (finish p) (fun w => t.value scope.machine.memory = some w)
      (t.value scope.machine.memory = none) := by
    simp only [finish, hx, ho, List.isEmpty_nil, if_true]
    exact ht.bind (fun w hw => hw) id
  exact hf.bind (fun w hw => ⟨w, hw, rfl⟩) id

/-- Evaluation gives the value of the expression that a text is, and none for any other text. Only
expressions with many open parentheses can be too much for it. -/
theorem outcome_eq_reference (scope : Scope) (text : String) :
    (∀ v, outcome scope text = .ok v → ∃ ts t w, Splits scope text.toList ts ∧ IsExpression ts ∧
      Derives .whole ts t ∧ t.value scope.machine.memory = some w ∧ v = .ofInt w.toInt) ∧
    ∀ ts, Splits scope text.toList ts → IsExpression ts →
      (∃ t, Derives .whole ts t) ∧ ∀ t, Derives .whole ts t →
        outcome scope text = (t.value scope.machine.memory).elim (.error .undefined)
            (fun w => .ok (.ofInt w.toInt)) ∨
          NestsOver 14 ts ∧ ∃ stack, outcome scope text = .error (.full stack) := by
  refine ⟨fun v h => exists_of_outcome h, fun ts hs he => ⟨isExpression_iff.1 he, fun t hd => ?_⟩⟩
  have h := leads_outcome hs hd
  cases ho : outcome scope text with
  | ok v =>
    rw [ho] at h
    obtain ⟨w, hw, rfl⟩ := h
    rw [hw]
    exact .inl rfl
  | error e =>
    rw [ho] at h
    cases e with
    | full stack =>
      have hn := nestsOver_of_full ho
      rw [tokens_of_splits hs] at hn
      exact .inr ⟨hn, stack, rfl⟩
    | undefined =>
      left
      rw [show t.value scope.machine.memory = none from h]
      rfl
    | empty | malformed | unbalanced | impossible => exact h.elim

def plainScope : Scope :=
  ⟨.ofRam 16, .cpu, .decimal⟩

/-- The complement applies before the sum, and so does the product. -/
theorem outcome_eq_reference_complement :
    ∃ ts t, Splits plainScope "~1 + 2*3".toList ts ∧ IsExpression ts ∧ Derives .whole ts t ∧
      t.value plainScope.machine.memory = some 4 ∧ outcome plainScope "~1 + 2*3" = .ok 4 := by
  have hs : Splits plainScope "~1 + 2*3".toList [.complement, .operand 1, .operator .add,
      .operand 2, .operator .multiply, .operand 3] :=
    .symbol (t := .complement) rfl <| .operand (r := ⟨1, 1, some 10⟩) (by decide +kernel) <|
      .blank (.inl rfl) <| .symbol (t := .operator .add) rfl <| .blank (.inl rfl) <|
        .operand (r := ⟨2, 1, some 10⟩) (by decide +kernel) <|
          .symbol (t := .operator .multiply) rfl <|
            .operand (r := ⟨3, 1, some 10⟩) (by decide +kernel) .nil
  have hproduct : Derives (.chain false 3) [.operand 2, .operator .multiply, .operand 3]
      (.binary .multiply (.number 2) (.number 3)) :=
    .binary (.operand (.number 2)) (.operand (.number 3)) (Nat.le_refl 3)
  have hsum : Derives (.chain true 0) [.complement, .operand 1, .operator .add, .operand 2,
      .operator .multiply, .operand 3]
      (.binary .add (.signed .complement (.number 1)) (.binary .multiply (.number 2) (.number 3))) :=
    .binary (.signed .complement (.number 1)) hproduct (Nat.zero_le 2)
  have hd := Derives.chain hsum
  have he := isExpression_iff.2 ⟨_, hd⟩
  obtain h | ⟨⟨us, hprefix, hcount⟩, _⟩ :=
    ((outcome_eq_reference plainScope "~1 + 2*3").2 _ hs he).2 _ hd
  · exact ⟨_, _, hs, he, hd, rfl, h⟩
  · have hle : us.count .opening ≤ 0 := hprefix.sublist.count_le .opening
    omega

end Monitor.Expression

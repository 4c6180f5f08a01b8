import Monitor.Proofs.Expression.Reference

namespace Monitor.Expression

variable {m : Machine} {ts us : List Token}

/-- What waits on a level between two tokens: a sign alone, or at most four operators, last first,
of which each binds tighter than those before it, with their left operands. -/
inductive Level.Orderly : Level → Prop
  | signed (sign : Sign) : Orderly ⟨some sign, [], []⟩
  | rising {operators : List Operator} {values : List Int64} (hcount : operators.length ≤ 4)
      (hvalues : values.length = operators.length)
      (hrise : operators.Pairwise fun later earlier => earlier.level < later.level) :
      Orderly ⟨none, operators, values⟩

theorem Pending.rising {operators : List Operator} {values : List Int64}
    (h : Pending m operators values ts) :
    operators.Pairwise fun later earlier => earlier.level < later.level := by
  induction operators generalizing values ts with
  | nil => exact .nil
  | cons op operators ih =>
    cases values with
    | nil => exact h.elim
    | cons v values =>
      obtain ⟨us, -, -, -, hrest, hlast, -⟩ := h
      have hrise := ih hrest
      refine .cons ?_ hrise
      cases operators with
      | nil => exact List.forall_mem_nil _
      | cons last operators =>
        have hop : last.level < op.level := hlast last rfl
        refine List.forall_mem_cons.2 ⟨hop, fun below hbelow => ?_⟩
        exact Nat.lt_trans (List.rel_of_pairwise_cons hrise hbelow) hop

theorem Level.Reads.orderly {level : Level} (h : level.Reads m ts) : level.Orderly := by
  obtain ⟨sign, operators, values⟩ := level
  cases sign with
  | some sign =>
    obtain ⟨rfl, rfl, -⟩ := h
    exact .signed sign
  | none =>
    have hcount := h.count_le.1
    simp only [operatorCount, Option.toList_none, List.length_nil, Nat.add_zero] at hcount
    exact .rising hcount (Pending.length h).1 (Pending.rising h)

theorem Surrounds.orderly {outer : List Level} (h : Surrounds m outer ts) :
    ∀ level ∈ outer, level.Orderly := by
  induction outer generalizing ts with
  | nil => exact List.forall_mem_nil _
  | cons level outer ih =>
    obtain ⟨us, vs, -, hus, hvs⟩ := h
    exact List.forall_mem_cons.2 ⟨hvs.orderly, ih hus⟩

theorem Progress.Reads.orderly {p : Progress} (h : p.Reads m ts) :
    ∀ level ∈ p.level :: p.outer, level.Orderly := by
  obtain ⟨us, vs, ws, -, hu, hl, -⟩ := h
  exact List.forall_mem_cons.2 ⟨hl.orderly, hu.orderly⟩

/-- Between any two tokens all levels that are open are orderly, and so the stacks are never full
for an expression, however long, in which no more than fourteen parentheses are open at a time. -/
theorem not_full_of_shallow (scope : Scope) (text : String) :
    (∀ ts us p, (tokens scope 0 text.toList).map Placed.token = ts ++ us →
      advance scope.machine {} ts = .ok p → ∀ level ∈ p.level :: p.outer, level.Orderly) ∧
    (¬NestsOver 14 ((tokens scope 0 text.toList).map Placed.token) →
      ∀ stack, outcome scope text ≠ .error (.full stack)) := by
  refine ⟨fun ts us p _ hp => ?_, fun hshallow stack h => hshallow (nestsOver_of_full h)⟩
  exact (Progress.reads_empty.advance hp).orderly

def steepTokens : List Token :=
  [.operand 1, .operator .or, .operand 2, .operator .shiftLeft, .operand 3, .operator .add,
    .operand 4, .operator .multiply, .opening, .operand 5, .closing]

theorem not_full_of_shallow_steep :
    (∃ p level, p.outer = [level] ∧ level.operators.length = 4 ∧ level.Orderly ∧
      advance plainScope.machine {} (steepTokens.take 9) = .ok p) ∧
    ∀ stack, outcome plainScope "1|2<<3+4*(5)" ≠ .error (.full stack) := by
  have hs : Splits plainScope "1|2<<3+4*(5)".toList steepTokens :=
    .operand (r := ⟨1, 1, some 10⟩) (by decide +kernel) <|
      .symbol (t := .operator .or) rfl <| .operand (r := ⟨2, 1, some 10⟩) (by decide +kernel) <|
        .symbol (t := .operator .shiftLeft) rfl <|
          .operand (r := ⟨3, 1, some 10⟩) (by decide +kernel) <|
            .symbol (t := .operator .add) rfl <|
              .operand (r := ⟨4, 1, some 10⟩) (by decide +kernel) <|
                .symbol (t := .operator .multiply) rfl <| .symbol (t := .opening) rfl <|
                  .operand (r := ⟨5, 1, some 10⟩) (by decide +kernel) <|
                    .symbol (t := .closing) rfl .nil
  have htokens := tokens_of_splits hs 0
  have hshallow : ¬NestsOver 14 steepTokens := by
    rintro ⟨us, hprefix, hcount⟩
    have hle : us.count .opening ≤ 1 := hprefix.sublist.count_le .opening
    omega
  obtain ⟨horderly, hfull⟩ := not_full_of_shallow plainScope "1|2<<3+4*(5)"
  rw [htokens] at hfull
  refine ⟨?_, hfull hshallow⟩
  have hp : advance plainScope.machine {} (steepTokens.take 9) = .ok { outer :=
      [⟨none, [.multiply, .add, .shiftLeft, .or], [4, 3, 2, 1]⟩] } := by decide +kernel
  have hcut := htokens.trans (List.take_append_drop 9 steepTokens).symm
  exact ⟨_, _, rfl, rfl, horderly _ _ _ hcut hp _ (by simp), hp⟩

end Monitor.Expression

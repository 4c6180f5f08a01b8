import Monitor.Proofs.Expression.Capacity
import Monitor.Proofs.Expression.Stacks

namespace Monitor.Expression

open Attempt

def Level.waiting (level : Level) : List Waiting :=
  level.operators.map .binary ++ level.sign.toList.map .sign

def Mark.over (levels : List Level) : Mark :=
  ⟨(levels.flatMap Level.waiting).length, (levels.flatMap Level.values).length⟩

def Mark.allOver : List Level → List Mark
  | [] => [.over []]
  | level :: outer => .over (level :: outer) :: allOver outer

def Progress.flatten (p : Progress) : Stacks where
  operators := (p.level :: p.outer).flatMap Level.waiting
  values := (p.level :: p.outer).flatMap Level.values
  marks := Mark.allOver p.outer
  operand := p.operand

def onStacks (x : Except Error Progress) : Except Stop Stacks :=
  (x.mapError .error).map Progress.flatten

theorem onStacks_ok (p : Progress) : onStacks (.ok p) = .ok p.flatten := rfl

variable {m : Machine} {p : Progress} {level : Level} {outer : List Level} {ts : List Token}
  {op : Operator} {v : Int64}

theorem Level.length_waiting (level : Level) : level.waiting.length = level.operatorCount := by
  rw [waiting, List.length_append, List.length_map, List.length_map, operatorCount]

theorem Level.waiting_of_unsigned (operators : List Operator) (values : List Int64) :
    waiting ⟨none, operators, values⟩ = operators.map .binary :=
  List.append_nil _

theorem length_flatMap_waiting (levels : List Level) : (levels.flatMap Level.waiting).length =
    levels.foldr (fun level n => level.operatorCount + n) 0 := by
  induction levels with
  | nil => rfl
  | cons level levels ih =>
    rw [List.flatMap_cons, List.length_append, ih, level.length_waiting, List.foldr_cons]

theorem length_flatMap_values (levels : List Level) : (levels.flatMap Level.values).length =
    levels.foldr (fun level n => level.values.length + n) 0 := by
  induction levels with
  | nil => rfl
  | cons level levels ih => rw [List.flatMap_cons, List.length_append, ih, List.foldr_cons]

theorem mark_of_allOver {s : Stacks} (h : s.marks = Mark.allOver outer) :
    s.mark = .ok (.over outer) := by
  rw [Stacks.mark, h]
  cases outer <;> rfl

namespace Progress

@[simp] theorem operand_flatten (p : Progress) : p.flatten.operand = p.operand := rfl

theorem length_operators (p : Progress) : p.flatten.operators.length = p.operatorCount :=
  length_flatMap_waiting _

theorem length_values (p : Progress) : p.flatten.values.length = p.valueCount :=
  length_flatMap_values _

theorem length_marks (p : Progress) : p.flatten.marks.length = p.outer.length + 1 := by
  have hlength (outer : List Level) : (Mark.allOver outer).length = outer.length + 1 := by
    induction outer with
    | nil => rfl
    | cons level outer ih => rw [Mark.allOver, List.length_cons, ih, List.length_cons]
  exact hlength p.outer

theorem checkStart_flatten (p : Progress) : p.flatten.checkStart =
    if p.operand.isSome || 0 < p.level.operatorCount then .error (.error .malformed)
    else .ok () := by
  have hheight : (Mark.over p.outer).operators < p.flatten.operators.length ↔
      0 < p.level.operatorCount := by
    rw [flatten, List.flatMap_cons, List.length_append, Level.length_waiting, Mark.over]
    exact Nat.lt_add_left_iff_pos
  rw [Stacks.checkStart, mark_of_allOver rfl, operand_flatten]
  cases p.operand with
  | some v => rfl
  | none =>
    simp only [Option.isSome_none, Bool.false_eq_true, if_false, ok_bind, hheight, Bool.false_or,
      decide_eq_true_eq]
    split <;> rfl

theorem putSign_flatten (p : Progress) (sign : Sign) :
    p.flatten.putSign sign = onStacks (p.putSign sign) := by
  rw [Stacks.putSign, checkStart_flatten, putSign]
  split
  · rfl
  · rename_i hstart
    rw [Bool.or_eq_true, not_or, decide_eq_true_eq] at hstart
    rw [ok_bind, Stacks.pushOperator, length_operators]
    split
    · rfl
    · obtain ⟨⟨sign', operators, values⟩, outer, operand⟩ := p
      have hlevel : operators = [] ∧ sign' = none := by
        simpa [Level.operatorCount] using hstart.2
      obtain ⟨rfl, rfl⟩ := hlevel
      rfl

theorem openLevel_flatten (p : Progress) : p.flatten.openLevel = onStacks p.openLevel := by
  rw [Stacks.openLevel, openLevel, operand_flatten, length_marks]
  cases hp : p.operand with
  | some v => rfl
  | none =>
    simp only [Option.isSome_none, Bool.false_eq_true, if_false, Nat.lt_succ_iff]
    split
    · rfl
    · rw [onStacks_ok, flatten, flatten, hp]
      rfl

end Progress

theorem fold_map (op : Operator) {operators : List Operator} {values : List Int64}
    (hlen : values.length = operators.length + 1) (ws : List Waiting) (vs : List Int64) :
    Waiting.fold ws.length (.binary op) (operators.map .binary ++ ws) (values ++ vs) =
      ((Level.reduce op operators values).mapError Stop.error).map fun level =>
        (level.waiting ++ ws, level.values ++ vs) := by
  induction operators generalizing values with
  | nil =>
    cases ws with
    | nil => rfl
    | cons w ws => exact if_pos (Nat.le_refl _)
  | cons below operators ih =>
    obtain ⟨b, values, rfl⟩ := List.exists_cons_of_length_eq_add_one hlen
    obtain ⟨a, values, rfl⟩ := List.exists_cons_of_length_eq_add_one (Nat.succ.inj hlen)
    have hheight : ¬(Waiting.binary below :: (operators.map .binary ++ ws)).length ≤ ws.length := by
      rw [List.length_cons, List.length_append]
      omega
    rw [List.map_cons, List.cons_append, List.cons_append, List.cons_append, Waiting.fold,
      if_neg hheight, Level.reduce]
    simp only [Waiting.level, ok_bind]
    split
    · rw [mapError_ok, Except.map, Level.waiting_of_unsigned]
      rfl
    · simp only [Waiting.apply]
      cases below.apply a b with
      | error e => rfl
      | ok c =>
        have hrest : (c :: values).length = operators.length + 1 := Nat.succ.inj hlen
        exact ih hrest

def Level.Even (level : Level) : Prop :=
  level.values.length = level.operators.length ∧ (level.sign.isSome = true → level.operators = [])

theorem Level.Reads.even (h : level.Reads m ts) : level.Even := by
  obtain ⟨sign, operators, values⟩ := level
  cases sign with
  | none => exact ⟨(Pending.length h).1, nofun⟩
  | some sign =>
    obtain ⟨rfl, rfl, -⟩ := h
    exact ⟨rfl, fun _ => rfl⟩

theorem drop_above {α : Type} (top rest : List α) :
    (top ++ rest).drop ((top ++ rest).length - rest.length) = rest := by
  rw [List.length_append, Nat.add_sub_cancel, List.drop_left]

theorem settle_push (h : level.Even) (op : Operator) (v : Int64) (outer : List Level)
    (operand : Option Int64) :
    Stacks.settle ⟨.binary op :: (level.waiting ++ outer.flatMap Level.waiting),
        v :: (level.values ++ outer.flatMap Level.values), Mark.allOver outer, operand⟩ =
      ((level.push op v).mapError Stop.error).map fun next =>
        ⟨next.waiting ++ outer.flatMap Level.waiting, next.values ++ outer.flatMap Level.values,
          Mark.allOver outer, operand⟩ := by
  obtain ⟨sign, operators, values⟩ := level
  obtain ⟨hlen, hsign⟩ := h
  dsimp only at hlen hsign
  rw [Stacks.settle, mark_of_allOver rfl, ok_bind]
  cases sign with
  | some sign =>
    cases hsign rfl
    cases List.length_eq_zero_iff.1 hlen
    exact (if_neg (Nat.not_succ_le_self _)).trans (if_pos rfl)
  | none =>
    rw [Level.waiting_of_unsigned]
    cases operators with
    | nil =>
      cases List.length_eq_zero_iff.1 hlen
      exact if_pos (Nat.le_refl _)
    | cons below operators =>
      have hmore : (v :: values).length = (below :: operators).length + 1 := congrArg (· + 1) hlen
      have hheight : ¬(Waiting.binary op :: ((below :: operators).map .binary ++
          outer.flatMap Level.waiting)).length ≤ (Mark.over outer).operators + 1 := by
        simp only [Mark.over, List.length_cons, List.length_append, List.length_map]
        omega
      have hvalues : ¬(v :: (values ++ outer.flatMap Level.values)).length =
          (Mark.over outer).values + 1 := by
        simp only [Mark.over, List.length_cons, List.length_append] at hlen ⊢
        omega
      rw [if_neg hheight, if_neg hvalues, Stacks.applyOperators, mark_of_allOver rfl, ok_bind]
      have hfold := congrArg
        (· >>= fun folded => (pure ⟨folded.1, folded.2, Mark.allOver outer, operand⟩ :
          Except Stop Stacks))
        (fold_map op hmore (outer.flatMap Level.waiting) (outer.flatMap Level.values))
      refine hfold.trans ?_
      rw [Level.push]
      cases Level.reduce op (below :: operators) (v :: values) <;> rfl

theorem Progress.Reads.even (h : p.Reads m ts) : p.level.Even := by
  obtain ⟨us, vs, ws, -, -, hl, -⟩ := h
  exact hl.even

namespace Progress

theorem putOperator_flatten (h : p.level.Even) (op : Operator) (v : Int64) :
    p.flatten.putOperator op v = onStacks (p.putOperator op v) := by
  rw [Stacks.putOperator, Stacks.pushOperator, length_operators, putOperator]
  split
  · rfl
  · rw [ok_bind, Stacks.pushValue]
    simp only [length_values]
    split
    · rfl
    · have hsettle := congrArg (· >>= fun s => pure { s with operand := none })
        (settle_push h op v p.outer p.operand)
      refine hsettle.trans ?_
      cases p.level.push op v <;> rfl

theorem operator_flatten (h : p.level.Even) (op : Operator) :
    p.flatten.operator op = onStacks (p.operator op) := by
  unfold Stacks.operator operator
  rw [operand_flatten]
  cases hp : p.operand with
  | some v => exact putOperator_flatten h op v
  | none =>
    have hstart : p.flatten.checkStart = if 0 < p.level.operatorCount then
        .error (.error .malformed) else .ok () := by
      rw [checkStart_flatten, hp]
      simp
    cases op with
    | subtract => exact putSign_flatten p .negate
    | add =>
      simp only [hstart, putPlus]
      split <;> rfl
    | or | and | xor | shiftRight | shiftLeft | multiply | divide =>
      simp only [hstart]
      split <;> rfl

theorem dropLevel_flatten (ho : p.outer = level :: outer) (v : Int64) :
    p.flatten.dropLevel v = .ok (flatten { level, outer, operand := some v }) := by
  have hmark : p.flatten.mark = .ok (.over p.outer) := mark_of_allOver rfl
  have hdropped := congrArg₂
    (fun operators values => Stacks.mk operators values p.flatten.marks.tail (some v))
    (drop_above p.level.waiting (p.outer.flatMap Level.waiting))
    (drop_above p.level.values (p.outer.flatMap Level.values))
  rw [Stacks.dropLevel, hmark, ok_bind]
  refine (congrArg Except.ok hdropped).trans ?_
  rw [flatten, ho]
  rfl

end Progress

theorem last_flatten {a : Int64} {rest : List Int64} (h : p.level.values = a :: rest)
    (missing : Fault) : p.flatten.last missing = .ok a := by
  have hvalues : p.flatten.values = a :: (rest ++ p.outer.flatMap Level.values) :=
    congrArg (· ++ p.outer.flatMap Level.values) h
  rw [Stacks.last, hvalues]

theorem closeLevel_flatten (h : p.Reads m ts) :
    p.flatten.closeLevel m = recast .error Progress.flatten (closeLevel m p) := by
  unfold Stacks.closeLevel closeLevel
  rw [Progress.operand_flatten, Progress.length_marks]
  cases hp : p.operand with
  | none => rfl
  | some v =>
    cases ho : p.outer with
    | nil => rfl
    | cons level outer =>
      have hdeep : ¬(level :: outer).length + 1 < 2 :=
        Nat.not_lt.2 (Nat.succ_le_succ (Nat.succ_pos outer.length))
      dsimp only
      rw [if_neg hdeep, Progress.putOperator_flatten h.even]
      rcases h.total_cases hp with ⟨e, hput, htotal⟩ | ⟨q, a, rest, hput, hvalues, houter, htotal⟩
      · rw [hput, htotal]
        rfl
      · have hdrop (w : Int64) := Progress.dropLevel_flatten (houter.trans ho) w
        rw [hput, htotal, onStacks_ok, mk_ok_bind, last_flatten hvalues, mk_ok_bind]
        exact congrArg₂ Logged.mk (hdrop _) rfl

theorem step_flatten (h : p.Reads m ts) (t : Token) :
    p.flatten.step m t = recast .error Progress.flatten (step m p t) := by
  cases t with
  | operator op => exact congrArg (Logged.mk · []) (Progress.operator_flatten h.even op)
  | complement => exact congrArg (Logged.mk · []) (Progress.putSign_flatten p .complement)
  | opening => exact congrArg (Logged.mk · []) (Progress.openLevel_flatten p)
  | closing => exact closeLevel_flatten h
  | operand value =>
    rw [Stacks.step, step, Progress.operand_flatten]
    split <;> rfl
  | unreadable => rfl

def Failure.stop (f : Failure) : Stop × Nat :=
  (.error f.error, f.offset)

theorem run_flatten (h : p.Reads m ts) (us : List Placed) :
    Stacks.run m p.flatten us = recast Failure.stop Progress.flatten (run m p us) := by
  induction us generalizing p ts with
  | nil => rfl
  | cons t us ih =>
    have hstep : recast (fun e => (Stop.error e, t.offset)) Progress.flatten (step m p t.token) =
        recast Failure.stop Progress.flatten ((step m p t.token).adapt (⟨·, t.offset⟩)) :=
      (recast_adapt (f := Failure.stop) (Failure.mk · t.offset) _).symm
    rw [Stacks.run, run, step_flatten h, adapt_recast, hstep]
    refine recast_bind fun q hq => ?_
    rw [result_adapt, mapError_eq_ok] at hq
    exact ih (h.step hq)

theorem finish_flatten (h : p.Reads m ts) :
    p.flatten.finish = (finish p).mapError .error := by
  rw [Stacks.finish, finish, Progress.operand_flatten]
  cases hp : p.operand with
  | none =>
    have hoperators : p.flatten.operators.isEmpty = decide (p.operatorCount = 0) := by
      rw [← Progress.length_operators]
      cases p.flatten.operators <;> rfl
    have hvalues : p.flatten.values.isEmpty = decide (p.valueCount = 0) := by
      rw [← Progress.length_values]
      cases p.flatten.values <;> rfl
    dsimp only
    rw [hoperators, hvalues]
    split <;> rfl
  | some v =>
    dsimp only
    rw [Progress.putOperator_flatten h.even]
    rcases h.total_cases hp with ⟨e, hput, htotal⟩ | ⟨q, a, rest, hput, hvalues, houter, htotal⟩
    · rw [hput, htotal]
      rfl
    · rw [hput, htotal, onStacks_ok, ok_bind, Progress.length_marks, houter, last_flatten hvalues]
      cases p.outer with
      | nil => rfl
      | cons level outer => exact if_pos (Nat.succ_lt_succ (Nat.succ_pos outer.length))

theorem reads_of_run {p : Progress} {us : List Placed} (h : result (run m {} us) = .ok p) :
    p.Reads m (us.map Placed.token) := by
  refine Progress.reads_empty.advance ?_
  rw [← result_run, h]
  rfl

theorem evaluate_flatten (scope : Scope) (text : String) :
    Stacks.evaluate scope text = (evaluate scope text).adapt Failure.stop := by
  have hrun := run_flatten (m := scope.machine) Progress.reads_empty (tokens scope 0 text.toList)
  rw [← recast_id, evaluate]
  refine (congrArg (· >>= _) hrun).trans (recast_bind fun p hp => ?_)
  rw [finish_flatten (reads_of_run hp)]
  cases finish p <;> rfl

/-- The evaluation can be carried out on one stack of operators and one of values, with a mark for
each level, and none of the states comes up in which that could not go on. Nor does the evaluation
ever fail for an impossible state or a full stack of values. -/
theorem evaluate_on_stacks (scope : Scope) (text : String) :
    Stacks.evaluate scope text = (evaluate scope text).adapt Failure.stop ∧
      (∀ fault offset, result (Stacks.evaluate scope text) ≠ .error (.fault fault, offset)) ∧
      outcome scope text ≠ .error .impossible ∧ outcome scope text ≠ .error (.full .values) := by
  have hevaluate := evaluate_flatten scope text
  refine ⟨hevaluate, fun fault offset h => ?_, fun h => ?_, fun h => ?_⟩
  · rw [hevaluate, result_adapt] at h
    cases hr : result (evaluate scope text) with
    | ok v => rw [hr] at h; cases h
    | error f => rw [hr] at h; cases h
  · obtain ⟨p, us, -, -, harises⟩ := arises_of_outcome h
    exact harises
  · obtain ⟨p, us, -, -, harises⟩ := arises_of_outcome h
    exact harises

end Monitor.Expression

import Monitor.Proofs.Condition.Grammar

namespace Monitor.Condition

open Attempt

variable {α β : Type} {scope : Scope} {tokens rest : List Token} {cursor next : Cursor}
  {index : Nat} {indirect : Bool} {t : Token} {w : Written} {f : Failure}

/-- A cursor stands in a list of tokens, or at its end: what is left is what follows its index. -/
structure Cursor.Within (tokens : List Token) (cursor : Cursor) : Prop where
  le : cursor.index ≤ tokens.length
  rest : tokens.drop cursor.index = cursor.rest

theorem Cursor.Within.skip (skipped : List Token) (h : Within tokens ⟨index, skipped ++ rest⟩) :
    Within tokens ⟨index + skipped.length, rest⟩ where
  le := by
    have hlength := congrArg List.length h.rest
    have hle := h.le
    rw [List.length_drop, List.length_append] at hlength
    dsimp only at hlength hle ⊢
    omega
  rest := by
    dsimp only
    rw [← List.drop_drop, h.rest, List.drop_left]

/-- What is read from a cursor leaves a cursor in the same list, or fails at an index of it. -/
inductive StaysIn (tokens : List Token) : Except Failure (α × Cursor) → Prop
  | ok {a : α} {next : Cursor} (h : next.Within tokens) : StaysIn tokens (.ok (a, next))
  | error {f : Failure} (h : f.index ≤ tokens.length) : StaysIn tokens (.error f)

theorem StaysIn.within {x : Except Failure (α × Cursor)} {a : α} (h : StaysIn tokens x)
    (hx : x = .ok (a, next)) : next.Within tokens := by
  subst hx
  cases h with
  | ok hnext => exact hnext

theorem StaysIn.bind {x : Except Failure (α × Cursor)}
    {g : α × Cursor → Except Failure (β × Cursor)} (hx : StaysIn tokens x)
    (hg : ∀ a next, next.Within tokens → StaysIn tokens (g (a, next))) :
    StaysIn tokens (x >>= g) := by
  cases hx with
  | ok h => exact hg _ _ h
  | error h => exact .error h

theorem StaysIn.of_index {x : Except Failure α} {g : α → β}
    (hx : ∀ f, x = .error f → f.index = index) (hindex : index ≤ tokens.length)
    (hnext : next.Within tokens) : StaysIn tokens (x >>= fun a => .ok (g a, next)) := by
  cases x with
  | ok a => exact .ok hnext
  | error f => exact .error (hx f rfl ▸ hindex)

namespace Written

theorem index_of_ofWord {letters : List Char}
    (h : result (ofWord scope indirect index letters) = .error f) : f.index = index := by
  rw [ofWord] at h
  split at h
  · rw [result_bind, result_lift, ok_bind] at h
    split at h <;> cases h
    rfl
  · split at h <;> cases h
    rfl

theorem index_of_checkAddress (h : result (checkAddress scope index w) = .error f) :
    f.index = index := by
  unfold checkAddress at h
  split at h
  · split at h <;> cases h
    rfl
  · cases h

theorem index_of_ofToken (h : result (ofToken scope indirect index t) = .error f) :
    f.index = index := by
  cases t with
  | word letters =>
    rw [ofToken, result_bind] at h
    obtain hword | ⟨w, -, h⟩ := bind_eq_error.1 h
    · exact index_of_ofWord hword
    · rw [result_bind] at h
      obtain hcheck | ⟨-, -, h⟩ := bind_eq_error.1 h
      · exact index_of_checkAddress hcheck
      · cases h
  | _ =>
    cases h
    rfl

theorem index_of_withModifier (h : w.withModifier index t = .error f) : f.index = index := by
  cases t with
  | word letters =>
    obtain hletter | ⟨w', -, hlength⟩ := bind_eq_error.1 h
    · split at hletter <;> split at hletter <;> cases hletter <;> rfl
    · split at hlength <;> cases hlength
      rfl
  | _ =>
    cases h
    rfl

theorem staysIn_readSource (h : cursor.Within tokens) :
    StaysIn tokens (result (readSource scope cursor)) := by
  unfold readSource
  split
  · exact .error h.le
  · rename_i index token rest
    have hword : Cursor.Within tokens ⟨index + 1, token :: .closing :: rest⟩ :=
      h.skip [.opening]
    rw [result_bind]
    exact .of_index (fun _ => index_of_ofToken) hword.le (h.skip [.opening, token, .closing])
  · rename_i index token rest _
    rw [result_bind]
    exact .of_index (fun _ => index_of_ofToken) h.le (h.skip [token])

theorem staysIn_readModifier (h : cursor.Within tokens) :
    StaysIn tokens (w.readModifier cursor) := by
  unfold readModifier
  split
  · rename_i index token rest
    split
    · have hletter : Cursor.Within tokens ⟨index + 1, token :: rest⟩ := h.skip [.dot]
      exact .of_index (fun _ => index_of_withModifier) hletter.le (h.skip [.dot, token])
    · exact .error h.le
  · split
    · exact .error h.le
    · exact .ok h

theorem index_of_withMask (h : result (w.withMask scope index t) = .error f) :
    f.index = index := by
  rw [result_withMask] at h
  split at h
  · cases h
    rfl
  · split at h <;> cases h
    rfl

theorem staysIn_readMask (h : cursor.Within tokens) :
    StaysIn tokens (result (w.readMask scope cursor)) := by
  unfold readMask
  split
  · rename_i index token rest
    have hmask : Cursor.Within tokens ⟨index + 1, token :: rest⟩ := h.skip [.mask]
    rw [result_bind]
    exact .of_index (fun _ => index_of_withMask) hmask.le (h.skip [.mask, token])
  · exact .ok h

theorem staysIn_read (h : cursor.Within tokens) :
    StaysIn tokens (result (read scope cursor)) := by
  have hplace : StaysIn tokens (place scope cursor) :=
    (staysIn_readSource h).bind fun w next hnext => staysIn_readModifier hnext
  rw [result_read]
  exact hplace.bind fun w next hnext => staysIn_readMask hnext

end Written

theorem staysIn_readComparison (h : cursor.Within tokens) :
    StaysIn tokens (readComparison cursor) := by
  unfold readComparison
  split
  · exact .error h.le
  · rename_i index comparison rest
    have hnext : Cursor.Within tokens ⟨index + 1, rest⟩ := h.skip [.compare comparison]
    split
    · exact .error hnext.le
    · exact .ok hnext
  · exact .error h.le

theorem index_of_check {v other : Value} (h : result (check index v other) = .error f) :
    f.index = index := by
  rw [check, result_bind, result_lift, ok_bind, result_bind, result_lift, ok_bind] at h
  split at h <;> cases h
  rfl

theorem staysIn_readOne (h : cursor.Within tokens) :
    StaysIn tokens (result (readOne scope cursor)) := by
  rw [readOne, result_bind]
  refine (Written.staysIn_read h).bind fun left middle hmiddle => ?_
  rw [result_bind]
  refine (staysIn_readComparison hmiddle).bind fun comparison behind hbehind => ?_
  rw [result_bind]
  refine (Written.staysIn_read hbehind).bind fun right last hlast => ?_
  dsimp only
  rw [result_bind]
  cases hcheck : result (check last.index (settle left right).1 (settle left right).2) with
  | error f => exact .error (index_of_check hcheck ▸ hlast.le)
  | ok =>
    rw [ok_bind, result_bind]
    exact .of_index (fun _ => index_of_check) hlast.le hlast

theorem Reads.ne_nil {c : Condition} {us : List Token} (h : Reads scope us c) : us ≠ [] := by
  cases h with
  | intro => exact List.append_ne_nil_of_right_ne_nil _ (List.cons_ne_nil _ _)

theorem index_le_of_readOne (h : cursor.Within tokens)
    (hone : result (readOne scope cursor) = .error f) : f.index ≤ tokens.length := by
  have hstays : StaysIn tokens (result (readOne scope cursor)) := staysIn_readOne h
  rw [hone] at hstays
  cases hstays with
  | error h => exact h

theorem lt_of_readOne {c : Condition} (h : cursor.Within tokens)
    (hone : result (readOne scope cursor) = .ok (c, next)) :
    next.Within tokens ∧ cursor.index < next.index := by
  have hnext : next.Within tokens := (staysIn_readOne h).within hone
  refine ⟨hnext, ?_⟩
  obtain ⟨us, hreads, hsplit⟩ := reads_of_readOne hone
  have hpos : 0 < us.length := List.length_pos_iff.2 hreads.ne_nil
  have hlength := congrArg List.length hsplit
  rw [← h.rest, ← hnext.rest, List.length_append, List.length_drop, List.length_drop] at hlength
  have hle := h.le
  have hle' := hnext.le
  omega

theorem index_le_of_readJoined {joints : Nat} (h : cursor.Within tokens)
    (hjoined : result (readJoined scope joints cursor) = .error f) : f.index ≤ tokens.length := by
  induction joints generalizing cursor with
  | zero =>
    rw [readJoined, result_bind] at hjoined
    obtain hlast | ⟨⟨last, next⟩, hlast, hend⟩ := bind_eq_error.1 hjoined
    · exact index_le_of_readOne h hlast
    · dsimp only at hend
      split at hend <;> cases hend
      exact (lt_of_readOne h hlast).1.le
  | succ joints ih =>
    rw [readJoined, result_bind] at hjoined
    obtain hfirst | ⟨⟨first, next⟩, hfirst, hmore⟩ := bind_eq_error.1 hjoined
    · exact index_le_of_readOne h hfirst
    · have hnext := (lt_of_readOne h hfirst).1
      dsimp only at hmore
      split at hmore
      · cases hmore
      · rename_i rest hjoint
        rw [result_bind] at hmore
        obtain hlater | ⟨_, _, hend⟩ := bind_eq_error.1 hmore
        · obtain ⟨index, left⟩ := next
          cases hjoint
          exact ih (hnext.skip [.and]) hlater
        · cases hend
      · cases hmore
        exact hnext.le

theorem within_start (tokens : List Token) : Cursor.Within tokens ⟨0, tokens⟩ :=
  ⟨Nat.zero_le _, rfl⟩

theorem index_le_of_ofTokens (h : result (ofTokens scope tokens) = .error f) :
    f.index ≤ tokens.length :=
  index_le_of_readJoined (within_start tokens) h

end Monitor.Condition

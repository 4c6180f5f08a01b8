import Monitor.Proofs.Condition.Cursors

namespace Monitor.Condition

open Attempt

/-- Why a reading that looks up tokens by their indices stops: for a failure that can be reported,
or because it cannot go on. -/
inductive Stop
  | failure (f : Failure)
  | outOfRange (index : Nat)
  | endless
  deriving DecidableEq, Repr

structure Reader where
  scope : Scope
  tokens : List Token

namespace Reader

def token (r : Reader) (index : Nat) : Except Stop Token :=
  match r.tokens[index]? with
  | some t => .ok t
  | none => .error (.outOfRange index)

def isEnclosed (r : Reader) (index : Nat) : Except Stop Bool := do
  if index + 3 ≤ r.tokens.length then
    if (← r.token index) = .opening then return (← r.token (index + 2)) = .closing
    else return false
  else return false

def source (r : Reader) (index : Nat) : Attempt Stop (Written × Nat) := do
  if r.tokens.length ≤ index then throw (.failure ⟨.valueMissing, index⟩)
  else if ← ExceptT.mk (pure (r.isEnclosed index)) then
    let t ← ExceptT.mk (pure (r.token (index + 1)))
    return (← (Written.ofToken r.scope true (index + 1) t).adapt .failure, index + 3)
  else
    let t ← ExceptT.mk (pure (r.token index))
    return (← (Written.ofToken r.scope false index t).adapt .failure, index + 1)

/-- Whether a modifier that starts with a token comes next: there is a token behind it. -/
def isNext (r : Reader) (start : Token) (index : Nat) : Except Stop Bool := do
  if index + 2 ≤ r.tokens.length then return (← r.token index) = start
  else return false

def modifier (r : Reader) (w : Written) (index : Nat) : Except Stop (Written × Nat) := do
  if ← r.isNext .dot index then
    if w.indirect then
      let t ← r.token (index + 1)
      return (← (w.withModifier (index + 1) t).mapError .failure, index + 2)
    else throw (.failure ⟨.modifierNeedsAddress, index⟩)
  else if w.space.isSome && w.indirect then throw (.failure ⟨.spaceRequired, index⟩)
  else return (w, index)

def mask (r : Reader) (w : Written) (index : Nat) : Attempt Stop (Written × Nat) := do
  if ← ExceptT.mk (pure (r.isNext .mask index)) then
    let t ← ExceptT.mk (pure (r.token (index + 1)))
    return (← (w.withMask r.scope (index + 1) t).adapt .failure, index + 2)
  else return (w, index)

def side (r : Reader) (index : Nat) : Attempt Stop (Written × Nat) := do
  let (w, index) ← r.source index
  let (w, index) ← ExceptT.mk (pure (r.modifier w index))
  r.mask w index

def comparison (r : Reader) (index : Nat) : Except Stop (Comparison × Nat) :=
  match r.tokens[index]? with
  | none => .error (.failure ⟨.comparisonExpected, index⟩)
  | some (.compare comparison) =>
    if r.tokens.length ≤ index + 1 then .error (.failure ⟨.rightSideMissing, index + 1⟩)
    else .ok (comparison, index + 1)
  | some _ => .error (.failure ⟨.invalidComparison, index⟩)

def condition (r : Reader) (index : Nat) : Attempt Stop (Condition × Nat) := do
  let (left, index) ← r.side index
  let (comparison, index) ← ExceptT.mk (pure (r.comparison index))
  let (right, index) ← r.side index
  let (left, right) := settle left right
  (check index left right).adapt .failure
  (check index right left).adapt .failure
  return ({ left, comparison, right }, index)

def conditions (r : Reader) : Nat → Nat → Attempt Stop (List Condition)
  | 0, _ => throw .endless
  | room + 1, index => do
    let (first, index) ← r.condition index
    if index = r.tokens.length then return [first]
    else
      let t ← ExceptT.mk (pure (r.token index))
      if t = .and then return first :: (← r.conditions room (index + 1))
      else throw (.failure ⟨.trailingContent, index⟩)

def run (r : Reader) : Attempt Stop (List Condition) :=
  r.conditions (r.tokens.length + 1) 0

end Reader

def indexed {α : Type} (read : α × Cursor) : α × Nat :=
  (read.1, read.2.index)

namespace Cursor.Within

variable {tokens rest : List Token} {index k : Nat}

theorem length_eq (h : Within tokens ⟨index, rest⟩) : tokens.length = index + rest.length := by
  have hle : index ≤ tokens.length := h.le
  have hlength : tokens.length - index = rest.length := by
    rw [← List.length_drop]
    exact congrArg List.length h.rest
  omega

theorem getElem?_eq (h : Within tokens ⟨index, rest⟩) (k : Nat) :
    tokens[index + k]? = rest[k]? := by
  have hrest : tokens.drop index = rest := h.rest
  rw [← hrest, List.getElem?_drop]

end Cursor.Within

namespace Reader

variable {r : Reader} {rest : List Token} {index k : Nat} {t : Token} {w : Written}

theorem token_eq (h : Cursor.Within r.tokens ⟨index, rest⟩) (ht : rest[k]? = some t) :
    r.token (index + k) = .ok t := by
  rw [token, h.getElem?_eq, ht]

theorem isEnclosed_cons (h : Cursor.Within r.tokens ⟨index, .opening :: t :: .closing :: rest⟩) :
    r.isEnclosed index = .ok true := by
  have hroom : index + 3 ≤ r.tokens.length := by
    rw [h.length_eq, List.length_cons, List.length_cons, List.length_cons]
    omega
  have hopening : r.token index = .ok .opening := token_eq h (k := 0) rfl
  have hclosing : r.token (index + 2) = .ok .closing := token_eq h rfl
  rw [isEnclosed, if_pos hroom, hopening, hclosing]
  rfl

theorem isEnclosed_of_ne (h : Cursor.Within r.tokens ⟨index, rest⟩)
    (hne : ∀ t more, rest ≠ .opening :: t :: .closing :: more) :
    r.isEnclosed index = .ok false := by
  have hlength := h.length_eq
  rw [isEnclosed]
  rcases rest with _ | ⟨a, _ | ⟨b, _ | ⟨c, more⟩⟩⟩
  case cons.cons.cons =>
    have ha : r.token index = .ok a := token_eq h (k := 0) rfl
    have hc : r.token (index + 2) = .ok c := token_eq h rfl
    rw [if_pos (by simp [hlength]), ha, ok_bind]
    by_cases hopening : a = .opening
    · have hclosing : c ≠ .closing := by
        rintro rfl
        exact hne b more (hopening ▸ rfl)
      rw [if_pos hopening, hc, ok_bind, decide_eq_false hclosing]
      rfl
    · rw [if_neg hopening]
      rfl
  all_goals
    rw [if_neg (by simp [hlength])]
    rfl

theorem isNext_cons {start : Token} (h : Cursor.Within r.tokens ⟨index, start :: t :: rest⟩) :
    r.isNext start index = .ok true := by
  have hroom : index + 2 ≤ r.tokens.length := by
    rw [h.length_eq, List.length_cons, List.length_cons]
    omega
  have hstart : r.token index = .ok start := token_eq h (k := 0) rfl
  rw [isNext, if_pos hroom, hstart, ok_bind, decide_eq_true rfl]
  rfl

theorem isNext_of_ne {start : Token} (h : Cursor.Within r.tokens ⟨index, rest⟩)
    (hne : ∀ t more, rest ≠ start :: t :: more) : r.isNext start index = .ok false := by
  have hlength := h.length_eq
  rw [isNext]
  rcases rest with _ | ⟨a, _ | ⟨b, more⟩⟩
  case cons.cons =>
    have ha : r.token index = .ok a := token_eq h (k := 0) rfl
    have hstart : a ≠ start := by
      rintro rfl
      exact hne b more rfl
    rw [if_pos (by simp [hlength]), ha, ok_bind, decide_eq_false hstart]
    rfl
  all_goals
    rw [if_neg (by simp [hlength])]
    rfl

theorem source_eq (h : Cursor.Within r.tokens ⟨index, rest⟩) :
    r.source index = recast .failure indexed (Written.readSource r.scope ⟨index, rest⟩) := by
  have hlength := h.length_eq
  unfold Written.readSource
  split
  · rename_i heq
    cases heq
    have hend : r.tokens.length ≤ index := Nat.le_of_eq hlength
    rw [source, if_pos hend]
    rfl
  · rename_i t rest heq
    cases heq
    have hroom : ¬r.tokens.length ≤ index := by simp [hlength]
    have ht : r.token (index + 1) = .ok t := token_eq h rfl
    rw [source, if_neg hroom, isEnclosed_cons h, mk_ok_bind, if_pos rfl, ht, mk_ok_bind,
      ← recast_id]
    exact recast_bind fun _ _ => rfl
  · rename_i t rest hopen heq
    cases heq
    have hroom : ¬r.tokens.length ≤ index := by simp [hlength]
    have ht : r.token index = .ok t := token_eq h (k := 0) rfl
    have henclosed : r.isEnclosed index = .ok false := isEnclosed_of_ne h fun u more heq =>
      hopen u more (List.cons.inj heq).1 (List.cons.inj heq).2
    rw [source, if_neg hroom, henclosed, mk_ok_bind, if_neg Bool.false_ne_true, ht, mk_ok_bind,
      ← recast_id]
    exact recast_bind fun _ _ => rfl

theorem modifier_eq (h : Cursor.Within r.tokens ⟨index, rest⟩) (w : Written) :
    r.modifier w index = ((w.readModifier ⟨index, rest⟩).mapError .failure).map indexed := by
  unfold Written.readModifier
  split
  · rename_i t rest heq
    cases heq
    have ht : r.token (index + 1) = .ok t := token_eq h rfl
    rw [modifier, isNext_cons h, ok_bind, if_pos rfl]
    split
    · rw [ht, ok_bind]
      cases w.withModifier (index + 1) t <;> rfl
    · rfl
  · rename_i hdot
    have hnext : r.isNext .dot index = .ok false := isNext_of_ne h fun t more heq =>
      hdot index t more (heq ▸ rfl)
    rw [modifier, hnext, ok_bind, if_neg Bool.false_ne_true]
    split <;> rfl

theorem mask_eq (h : Cursor.Within r.tokens ⟨index, rest⟩) (w : Written) :
    r.mask w index = recast .failure indexed (w.readMask r.scope ⟨index, rest⟩) := by
  unfold Written.readMask
  split
  · rename_i t rest heq
    cases heq
    have ht : r.token (index + 1) = .ok t := token_eq h rfl
    rw [mask, isNext_cons h, mk_ok_bind, if_pos rfl, ht, mk_ok_bind, ← recast_id]
    exact recast_bind fun _ _ => rfl
  · rename_i hmask
    have hnext : r.isNext .mask index = .ok false := isNext_of_ne h fun t more heq =>
      hmask index t more (heq ▸ rfl)
    rw [mask, hnext, mk_ok_bind, if_neg Bool.false_ne_true]
    rfl

theorem side_eq (h : Cursor.Within r.tokens ⟨index, rest⟩) :
    r.side index = recast .failure indexed (Written.read r.scope ⟨index, rest⟩) := by
  rw [side, source_eq h]
  refine recast_bind ?_
  rintro ⟨w, index, rest⟩ hsource
  have hplace : Cursor.Within r.tokens ⟨index, rest⟩ :=
    (Written.staysIn_readSource h).within hsource
  have hmodifier := modifier_eq hplace w
  dsimp only [indexed]
  rw [hmodifier]
  refine recast_bind (x := ExceptT.mk (pure (w.readModifier ⟨index, rest⟩))) ?_
  rintro ⟨w, index, rest⟩ hread
  exact mask_eq ((Written.staysIn_readModifier hplace).within hread) w

theorem comparison_eq (h : Cursor.Within r.tokens ⟨index, rest⟩) :
    r.comparison index = ((readComparison ⟨index, rest⟩).mapError .failure).map indexed := by
  have hlength := h.length_eq
  have hfirst : r.tokens[index]? = rest[0]? := h.getElem?_eq 0
  rw [comparison, hfirst]
  rcases rest with _ | ⟨t, rest⟩
  · rfl
  · cases t with
    | compare comparison =>
      cases rest with
      | nil => exact if_pos (Nat.le_of_eq hlength)
      | cons u rest => exact if_neg (by simp [hlength])
    | _ => rfl

theorem condition_eq (h : Cursor.Within r.tokens ⟨index, rest⟩) :
    r.condition index = recast .failure indexed (readOne r.scope ⟨index, rest⟩) := by
  rw [condition, side_eq h]
  refine recast_bind ?_
  rintro ⟨left, index, rest⟩ hleft
  have hmiddle : Cursor.Within r.tokens ⟨index, rest⟩ := (Written.staysIn_read h).within hleft
  have hcomparison := comparison_eq hmiddle
  dsimp only [indexed]
  rw [hcomparison]
  refine recast_bind (x := ExceptT.mk (pure (readComparison ⟨index, rest⟩))) ?_
  rintro ⟨comparison, index, rest⟩ hread
  have hbehind : Cursor.Within r.tokens ⟨index, rest⟩ :=
    (staysIn_readComparison hmiddle).within hread
  dsimp only [indexed]
  rw [side_eq hbehind]
  refine recast_bind ?_
  rintro ⟨right, index, rest⟩ -
  dsimp only [indexed]
  rw [← recast_id]
  refine recast_bind fun _ _ => ?_
  rw [← recast_id]
  exact recast_bind fun _ _ => rfl

theorem token_of_cons (h : Cursor.Within r.tokens ⟨index, t :: rest⟩) :
    index ≠ r.tokens.length ∧ r.token index = .ok t := by
  have hlength := h.length_eq
  rw [List.length_cons] at hlength
  exact ⟨by omega, token_eq h (k := 0) rfl⟩

theorem left_of_readOne {c : Condition} {last : Nat} {left : List Token}
    (h : Cursor.Within r.tokens ⟨index, rest⟩)
    (hone : result (readOne r.scope ⟨index, rest⟩) = .ok (c, ⟨last, left⟩)) :
    Cursor.Within r.tokens ⟨last, left⟩ ∧ left.length < rest.length ∧
      left.count .and ≤ rest.count .and := by
  obtain ⟨hlast, hlt⟩ := lt_of_readOne h hone
  obtain ⟨us, -, hsplit⟩ := reads_of_readOne hone
  have hlength := h.length_eq
  have hlength' := hlast.length_eq
  have hcount : rest.count .and = us.count .and + left.count .and := by
    rw [← List.count_append]
    exact congrArg (List.count Token.and) hsplit
  dsimp only at hlt
  exact ⟨hlast, by omega, by omega⟩

/-- The reading always comes to an end within the tokens, since each condition uses up some. -/
theorem conditions_eq {room joints : Nat} (h : Cursor.Within r.tokens ⟨index, rest⟩)
    (hroom : rest.length < room) (hjoints : rest.count .and ≤ joints) :
    r.conditions room index = recast .failure id (readJoined r.scope joints ⟨index, rest⟩) := by
  induction room generalizing index rest joints with
  | zero => exact absurd hroom (Nat.not_lt_zero _)
  | succ room ih =>
    rw [conditions, condition_eq h]
    cases joints with
    | zero =>
      rw [readJoined]
      refine recast_bind ?_
      rintro ⟨c, last, left⟩ hone
      obtain ⟨hlast, -, hcount⟩ := left_of_readOne h hone
      cases left with
      | nil => exact if_pos hlast.length_eq.symm
      | cons t more =>
        obtain ⟨hmore, ht⟩ := token_of_cons hlast
        have hjoint : t ≠ .and := by
          rintro rfl
          rw [List.count_cons_self] at hcount
          omega
        dsimp only [indexed]
        rw [if_neg hmore, ht, mk_ok_bind, if_neg hjoint]
        rfl
    | succ joints =>
      rw [readJoined]
      refine recast_bind ?_
      rintro ⟨c, last, left⟩ hone
      obtain ⟨hlast, hshorter, hcount⟩ := left_of_readOne h hone
      cases left with
      | nil => exact if_pos hlast.length_eq.symm
      | cons t more =>
        obtain ⟨hmore, ht⟩ := token_of_cons hlast
        dsimp only [indexed]
        rw [if_neg hmore, ht, mk_ok_bind]
        by_cases hjoint : t = .and
        · subst hjoint
          rw [List.count_cons_self] at hcount
          rw [List.length_cons] at hshorter
          have hbehind : Cursor.Within r.tokens ⟨last + 1, more⟩ := hlast.skip [.and]
          have hfewer : more.count .and ≤ joints := by omega
          rw [if_pos rfl, ih hbehind (by omega) hfewer]
          exact recast_bind fun _ _ => rfl
        · rw [if_neg hjoint]
          cases t <;> first | rfl | exact absurd rfl hjoint

theorem run_eq (r : Reader) : r.run = (ofTokens r.scope r.tokens).adapt .failure := by
  rw [run, ofTokens, conditions_eq (within_start _) (Nat.lt_succ_self _) (Nat.le_refl _), recast_id]

end Reader

end Monitor.Condition

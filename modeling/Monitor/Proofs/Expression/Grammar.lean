import Mathlib.Algebra.Ring.Int.Defs
import Monitor.Expression.Evaluation

namespace Monitor.Expression

/-- The result of an operator in the integers, of which the low 64 bits are kept. It is undefined
for a shift by a negative amount and for a quotient by zero. -/
def Operator.meaning? (op : Operator) (a b : Int64) : Option Int64 :=
  match op with
  | .or => some (a ||| b)
  | .and => some (a &&& b)
  | .xor => some (a ^^^ b)
  | .shiftRight => if b.toInt < 0 then none else some (.ofInt (a.toInt / 2 ^ b.toInt.toNat))
  | .shiftLeft => if b.toInt < 0 then none else some (.ofInt (a.toInt * 2 ^ b.toInt.toNat))
  | .add => some (.ofInt (a.toInt + b.toInt))
  | .subtract => some (.ofInt (a.toInt - b.toInt))
  | .multiply => some (.ofInt (a.toInt * b.toInt))
  | .divide => if b.toInt = 0 then none else some (.ofInt (a.toInt.tdiv b.toInt))

def Sign.meaning : Sign → Int64 → Int64
  | .negate, a => .ofInt (-a.toInt)
  | .complement, a => .ofInt (-a.toInt - 1)

def longAt (m : Memory) (address : UInt32) : Nat :=
  (((m.peek address).toNat * 256 + (m.peek (address + 1)).toNat) * 256 +
    (m.peek (address + 2)).toNat) * 256 + (m.peek (address + 3)).toNat

inductive Term
  | number (value : UInt32)
  /-- The long at the address that an expression in parentheses gives. -/
  | memory (address : Term)
  | signed (sign : Sign) (operand : Term)
  | binary (op : Operator) (left right : Term)

namespace Term

def value (m : Memory) : Term → Option Int64
  | .number value => some (.ofInt value.toNat)
  | .memory address => (address.value m).map fun a => .ofInt (longAt m (.ofInt a.toInt))
  | .signed sign operand => (operand.value m).map sign.meaning
  | .binary op left right => do op.meaning? (← left.value m) (← right.value m)

end Term

def Sign.token : Sign → Token
  | .negate => .operator .subtract
  | .complement => .complement

/-- The tokens of plus signs, a sign, a first operand, and further operands behind their operators.
-/
def sequence (plus : Nat) (sign : Option Sign) (first : List Token)
    (rest : List (Operator × List Token)) : List Token :=
  List.replicate plus (.operator .add) ++ sign.toList.map Sign.token ++ first ++
    rest.flatMap fun x => .operator x.1 :: x.2

/-- The operands of the grammar, with no regard to which operator binds tighter. -/
inductive IsOperand : List Token → Prop
  | number (value : UInt32) : IsOperand [.operand value]
  | memory {plus : Nat} {sign : Option Sign} {first : List Token}
    {rest : List (Operator × List Token)} (hf : IsOperand first) (hr : ∀ x ∈ rest, IsOperand x.2) :
    IsOperand (.opening :: sequence plus sign first rest ++ [.closing])

def IsExpression (ts : List Token) : Prop :=
  ∃ plus sign first rest, IsOperand first ∧ (∀ x ∈ rest, IsOperand x.2) ∧
    ts = sequence plus sign first rest

inductive Phrase
  | operand
  /-- Operands joined by operators that bind at least as tightly as `level`. Only the first operand
  of parentheses may have a sign. -/
  | chain (signed : Bool) (level : Nat)
  /-- All that is inside one pair of parentheses, or outside of all. -/
  | whole

/-- The reading of expressions by precedence. Every operator associates to the left: on its right
are operators that bind tighter, on its left are also those of its own level. -/
inductive Derives : Phrase → List Token → Term → Prop
  | number (value : UInt32) : Derives .operand [.operand value] (.number value)
  | memory {ts : List Token} {t : Term} (h : Derives .whole ts t) :
    Derives .operand (.opening :: ts ++ [.closing]) (.memory t)
  | operand {signed : Bool} {n : Nat} {ts : List Token} {t : Term} (h : Derives .operand ts t) :
    Derives (.chain signed n) ts t
  | signed {n : Nat} {ts : List Token} {t : Term} (sign : Sign) (h : Derives .operand ts t) :
    Derives (.chain true n) (sign.token :: ts) (.signed sign t)
  | binary {signed : Bool} {n : Nat} {op : Operator} {ts us : List Token} {left right : Term}
    (hl : Derives (.chain signed op.level) ts left)
    (hr : Derives (.chain false (op.level + 1)) us right) (hn : n ≤ op.level) :
    Derives (.chain signed n) (ts ++ .operator op :: us) (.binary op left right)
  | chain {ts : List Token} {t : Term} (h : Derives (.chain true 0) ts t) : Derives .whole ts t
  | plus {ts : List Token} {t : Term} (h : Derives .whole ts t) :
    Derives .whole (.operator .add :: ts) t

def Token.symbol? : Token → Option (List Char)
  | .operator .or => some ['|']
  | .operator .and => some ['&']
  | .operator .xor => some ['^']
  | .operator .shiftRight => some ['>', '>']
  | .operator .shiftLeft => some ['<', '<']
  | .operator .add => some ['+']
  | .operator .subtract => some ['-']
  | .operator .multiply => some ['*']
  | .operator .divide => some ['/']
  | .complement => some ['~']
  | .opening => some ['(']
  | .closing => some [')']
  | .operand _ | .unreadable => none

/-- The tokens of a text, from left to right. An operand is the longest name or number at its place.
-/
inductive Splits (scope : Scope) : List Char → List Token → Prop
  | nil : Splits scope [] []
  | blank {c : Char} {cs : List Char} {ts : List Token} (hc : c = ' ' ∨ c = '\t')
    (h : Splits scope cs ts) : Splits scope (c :: cs) ts
  | symbol {t : Token} {s cs : List Char} {ts : List Token} (ht : t.symbol? = some s)
    (h : Splits scope cs ts) : Splits scope (s ++ cs) (t :: ts)
  | operand {r : Operand} {cs : List Char} {ts : List Token}
    (hr : Operand.readFront scope cs = .ok r) (h : Splits scope (cs.drop r.length) ts) :
    Splits scope cs (.operand r.value :: ts)

/-- More than `n` parentheses are open at some place between the tokens. -/
def NestsOver (n : Nat) (ts : List Token) : Prop :=
  ∃ us, us <+: ts ∧ us.count .closing + n < us.count .opening

namespace Derives

variable {op : Operator} {signed : Bool} {n k : Nat} {ts us : List Token} {t u : Term}

theorem weaken (h : Derives (.chain signed n) ts t) (hk : k ≤ n) :
    Derives (.chain signed k) ts t := by
  cases h with
  | operand h => exact .operand h
  | signed sign h => exact .signed sign h
  | binary hl hr hn => exact .binary hl hr (Nat.le_trans hk hn)

/-- One more operator and operand can always be read. They go into the right side of the last
operator if they bind tighter than that. -/
theorem exists_append (h : Derives (.chain signed n) ts t) (hu : Derives .operand us u)
    (hn : n ≤ op.level) : ∃ t', Derives (.chain signed n) (ts ++ .operator op :: us) t' := by
  generalize hp : Phrase.chain signed n = p at h
  -- The induction goes down the right sides, since the new operand only ever goes there.
  induction h generalizing signed n with
  | number | memory | chain | plus => cases hp
  | operand h =>
    cases hp
    exact ⟨_, .binary (.operand h) (.operand hu) hn⟩
  | signed sign h =>
    cases hp
    exact ⟨_, .binary (.signed sign h) (.operand hu) hn⟩
  | @binary _ _ below ts₁ ts₂ left right hl hr hb _ ihr =>
    cases hp
    by_cases hle : op.level ≤ below.level
    · exact ⟨_, .binary (.binary hl hr hle) (.operand hu) hn⟩
    · obtain ⟨t', ht⟩ := ihr (by omega) rfl
      refine ⟨.binary below left t', ?_⟩
      rw [List.append_assoc, List.cons_append]
      exact .binary hl ht hb

theorem exists_sequence {plus : Nat} {sign : Option Sign} {rest : List (Operator × List Token)}
    (h : ∃ t, Derives .operand ts t) (hr : ∀ x ∈ rest, ∃ u, Derives .operand x.2 u) :
    ∃ t, Derives .whole (sequence plus sign ts rest) t := by
  have hchain (us : List Token) (hu : ∃ u, Derives (.chain true 0) us u) :
      ∃ t, Derives (.chain true 0) (us ++ rest.flatMap fun x => .operator x.1 :: x.2) t := by
    induction rest generalizing us with
    | nil => simpa using hu
    | cons x rest ih =>
      obtain ⟨u, hu⟩ := hu
      obtain ⟨v, hv⟩ := hr x (by simp)
      have := ih (fun y hy => hr y (by simp [hy])) _ (exists_append hu hv (Nat.zero_le x.1.level))
      simpa using this
  have hfirst : ∃ u, Derives (.chain true 0) (sign.toList.map Sign.token ++ ts) u := by
    obtain ⟨t, h⟩ := h
    cases sign with
    | none => exact ⟨t, .operand h⟩
    | some sign => exact ⟨_, .signed sign h⟩
  obtain ⟨t, ht⟩ := hchain _ hfirst
  refine ⟨t, ?_⟩
  unfold sequence
  induction plus with
  | zero => simpa using Derives.chain ht
  | succ plus ih => simpa [List.replicate_succ] using Derives.plus ih

def Shape : Phrase → List Token → Prop
  | .operand, ts => IsOperand ts
  | .chain signed _, ts => ∃ sign first rest, (signed = false → sign = none) ∧ IsOperand first ∧
      (∀ x ∈ rest, IsOperand x.2) ∧ ts = sequence 0 sign first rest
  | .whole, ts => IsExpression ts

theorem shape {p : Phrase} (h : Derives p ts t) : Shape p ts := by
  induction h with
  | number value => exact .number value
  | memory _ ih =>
    obtain ⟨plus, sign, first, rest, hf, hr, rfl⟩ := ih
    exact .memory hf hr
  | @operand _ _ ts _ _ ih => exact ⟨none, ts, [], fun _ => rfl, ih, by simp, by simp [sequence]⟩
  | @signed _ ts _ sign _ ih =>
    exact ⟨some sign, ts, [], by simp, ih, by simp, by simp [sequence]⟩
  | @binary _ _ op _ _ _ _ _ _ _ ihl ihr =>
    obtain ⟨sign, first, rest, hs, hf, hr, rfl⟩ := ihl
    obtain ⟨sign', first', rest', hs', hf', hr', rfl⟩ := ihr
    cases hs' rfl
    refine ⟨sign, first, rest ++ (op, first') :: rest', hs, hf, ?_, by simp [sequence]⟩
    intro x hx
    rw [List.mem_append, List.mem_cons] at hx
    obtain hx | rfl | hx := hx
    · exact hr x hx
    · exact hf'
    · exact hr' x hx
  | chain _ ih =>
    obtain ⟨sign, first, rest, -, hf, hr, rfl⟩ := ih
    exact ⟨0, sign, first, rest, hf, hr, rfl⟩
  | plus _ ih =>
    obtain ⟨plus, sign, first, rest, hf, hr, rfl⟩ := ih
    exact ⟨plus + 1, sign, first, rest, hf, hr, by simp [sequence, List.replicate_succ]⟩

end Derives

theorem IsOperand.exists_term {ts : List Token} (h : IsOperand ts) :
    ∃ t, Derives .operand ts t := by
  induction h with
  | number value => exact ⟨_, .number value⟩
  | memory _ _ ihf ihr =>
    obtain ⟨t, ht⟩ := Derives.exists_sequence ihf ihr
    exact ⟨_, .memory ht⟩

/-- The expressions are those sequences of tokens that have a reading by precedence. -/
theorem isExpression_iff {ts : List Token} : IsExpression ts ↔ ∃ t, Derives .whole ts t := by
  constructor
  · rintro ⟨plus, sign, first, rest, hf, hr, rfl⟩
    exact Derives.exists_sequence hf.exists_term fun x hx => (hr x hx).exists_term
  · rintro ⟨t, ht⟩
    exact ht.shape

end Monitor.Expression

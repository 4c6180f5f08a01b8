import Monitor.Proofs.Expression.Grammar

namespace Monitor.Expression

variable {scope : Scope}

theorem isNameChar_of_isDigit {c : Char} (h : Text.isDigit 16 c = true) :
    Operand.isNameChar c = true := by
  simp only [Text.isDigit, Text.digit?, Text.digitValue?] at h
  simp only [Operand.isNameChar, Text.isAsciiLetter]
  split at h
  · simp_all
  · split at h
    · simp_all
    · split at h <;> simp_all

theorem readFront_head {c : Char} {cs : List Char} {r : Operand}
    (h : Operand.readFront scope (c :: cs) = .ok r) :
    Operand.isNameChar c = true ∨ c = '%' ∨ c = '#' ∨ c = '$' := by
  by_contra hc
  simp only [not_or, Bool.not_eq_true] at hc
  obtain ⟨hn, h1, h2, h3⟩ := hc
  have hd : Text.isDigit 16 c = false := by
    by_contra hd
    simp [isNameChar_of_isDigit (by simpa using hd)] at hn
  have h0 : c ≠ '0' := by
    rintro rfl
    exact absurd hn (by decide)
  have hm : Numeral.marker? scope.radix.toNat (c :: cs) = none := by
    unfold Numeral.marker?
    split <;> simp_all
  simp [Operand.readFront, hn, Numeral.readFront, hm, Operand.nameLimit, Except.map] at h

theorem front?_symbol {t : Token} {s : List Char} (h : t.symbol? = some s) (cs : List Char) :
    Token.front? scope (s ++ cs) = some (t, s.length) := by
  cases t with
  | operator op => cases op <;> cases h <;> rfl
  | complement | opening | closing => cases h; rfl
  | operand value | unreadable => cases h

theorem front?_operand {cs : List Char} {r : Operand} (h : Operand.readFront scope cs = .ok r) :
    Token.front? scope cs = some (.operand r.value, r.length) := by
  cases cs with
  | nil => cases h
  | cons c cs =>
    have hc := readFront_head h
    have ho : Operator.ofChar? c = none := by
      unfold Operator.ofChar?
      split <;> first | rfl | exact absurd hc (by decide)
    unfold Token.front?
    split
    case h_7 c' cs' _ _ _ _ _ heq =>
      cases heq
      simp only [ho, h]
    all_goals simp_all [Operand.isNameChar, Text.isAsciiLetter, Text.isAsciiDigit]

theorem not_blank_of_operand {c : Char} {cs : List Char} {r : Operand}
    (h : Operand.readFront scope (c :: cs) = .ok r) : ¬(c = ' ' ∨ c = '\t') := by
  rintro (rfl | rfl) <;> exact absurd (readFront_head h) (by decide)

theorem not_blank_of_symbol {t : Token} {c : Char} {s : List Char} (h : t.symbol? = some (c :: s)) :
    ¬(c = ' ' ∨ c = '\t') := by
  cases t with
  | operator op => cases op <;> cases h <;> decide
  | complement | opening | closing => cases h; decide
  | operand value | unreadable => cases h

theorem tokens_blank {c : Char} (hc : c = ' ' ∨ c = '\t') (offset : Nat) (cs : List Char) :
    tokens scope offset (c :: cs) = tokens scope (offset + 1) cs := by
  rw [tokens, if_pos hc]

theorem tokens_front {c : Char} (hc : ¬(c = ' ' ∨ c = '\t')) {cs : List Char} {t : Token} {n : Nat}
    (h : Token.front? scope (c :: cs) = some (t, n)) (offset : Nat) :
    tokens scope offset (c :: cs) =
      ⟨t, offset⟩ :: tokens scope (offset + n) ((c :: cs).drop n) := by
  rw [tokens, if_neg hc]
  split
  · simp_all
  · simp_all

theorem front?_cases {cs : List Char} {t : Token} {n : Nat}
    (h : Token.front? scope cs = some (t, n)) :
    (∃ s, t.symbol? = some s ∧ n = s.length ∧ s ++ cs.drop n = cs) ∨
      ∃ r, Operand.readFront scope cs = .ok r ∧ t = .operand r.value ∧ n = r.length := by
  unfold Token.front? at h
  split at h
  case h_7 c cs _ _ _ _ _ =>
    split at h
    · rename_i op hop
      cases h
      left
      unfold Operator.ofChar? at hop
      split at hop <;> cases hop <;> exact ⟨_, rfl, rfl, rfl⟩
    · split at h
      · rename_i r hr
        cases h
        exact .inr ⟨r, hr, rfl, rfl⟩
      · cases h
  case h_1 => cases h
  all_goals
    cases h
    exact .inl ⟨_, rfl, rfl, rfl⟩

theorem symbol?_ne_nil {t : Token} {s : List Char} (h : t.symbol? = some s) : s ≠ [] := by
  cases t with
  | operator op => cases op <;> cases h <;> simp
  | complement | opening | closing => cases h; simp
  | operand value | unreadable => cases h

theorem tokens_of_splits {cs : List Char} {ts : List Token} (h : Splits scope cs ts) (offset : Nat) :
    (tokens scope offset cs).map Placed.token = ts := by
  induction h generalizing offset with
  | nil => simp [tokens]
  | blank hc _ ih => rw [tokens_blank hc, ih]
  | @symbol t s cs ts ht _ ih =>
    obtain ⟨c, s, rfl⟩ := List.exists_cons_of_ne_nil (symbol?_ne_nil ht)
    have hf : Token.front? scope _ = _ := front?_symbol ht cs
    rw [List.cons_append] at hf ⊢
    rw [tokens_front (not_blank_of_symbol ht) hf, List.map_cons]
    simp [ih]
  | @operand r cs ts hr _ ih =>
    cases cs with
    | nil => cases hr
    | cons c cs =>
      rw [tokens_front (not_blank_of_operand hr) (front?_operand hr), List.map_cons, ih]

theorem splits_tokens {cs : List Char} (offset : Nat)
    (h : .unreadable ∉ (tokens scope offset cs).map Placed.token) :
    Splits scope cs ((tokens scope offset cs).map Placed.token) := by
  fun_induction tokens scope offset cs with
  | case1 => exact .nil
  | case2 offset c cs hc ih => exact .blank hc (ih h)
  | case3 offset c cs hc hf => simp at h
  | case4 offset c cs hc t n hf ih =>
    rw [List.map_cons, List.mem_cons, not_or] at h
    have hs := ih h.2
    obtain ⟨s, ht, rfl, hd⟩ | ⟨r, hr, rfl, rfl⟩ := front?_cases hf
    · have hs' := Splits.symbol ht hs
      rwa [hd] at hs'
    · exact .operand hr hs

end Monitor.Expression

import Monitor.Proofs.Condition.Segments
import Monitor.Proofs.Condition.Words

namespace Monitor.Condition

open Attempt

variable {scope : Scope} {ts left right : List Token} {comparison : Comparison}
  {l r w w' : Written} {a b : String}

namespace Written

def IsReadFrom (scope : Scope) (ts : List Token) (w : Written) : Prop :=
  result (read scope ⟨0, ts⟩) = .ok (w, ⟨ts.length, []⟩)

theorem isReadFrom_iff : IsReadFrom scope ts w ↔ Reads scope ts w := by
  constructor
  · intro h
    obtain ⟨us, hreads, hrest⟩ := reads_of_read h
    have hall : ts = us := hrest.trans (List.append_nil us)
    rw [hall]
    exact hreads
  · intro h
    have hread : result (read scope ⟨0, ts ++ []⟩) = .ok (w, ⟨0 + ts.length, []⟩) :=
      read_of_reads h nofun nofun
    rw [List.append_nil, Nat.zero_add] at hread
    exact hread

theorem Reads.unique (h : Reads scope ts w) (h' : Reads scope ts w') : w = w' :=
  congrArg Prod.fst (Except.ok.inj ((isReadFrom_iff.2 h).symm.trans (isReadFrom_iff.2 h')))

end Written

def compared (l : Written) (comparison : Comparison) (r : Written) : Condition :=
  { left := (settle l r).1, comparison, right := (settle l r).2 }

/-- What is wrong with two sides. The left one is looked at first. -/
def refusal? (l r : Written) : Option Fault :=
  (checkAgainst (settle l r).1 (settle l r).2).or (checkAgainst (settle l r).2 (settle l r).1)

theorem result_check (index : Nat) (v other : Value) : result (check index v other) =
    match checkAgainst v other with
    | some fault => .error ⟨fault, index⟩
    | none => .ok () := by
  rw [check, result_bind, result_lift, ok_bind, result_bind, result_lift, ok_bind]
  cases checkAgainst v other <;> rfl

theorem result_readOne (hleft : Written.Reads scope left l) (comparison : Comparison)
    (hright : Written.Reads scope right r) :
    result (readOne scope ⟨0, left ++ .compare comparison :: right⟩) =
      match refusal? l r with
      | some fault => .error ⟨fault, (left ++ .compare comparison :: right).length⟩
      | none => .ok (compared l comparison r,
          ⟨(left ++ .compare comparison :: right).length, []⟩) := by
  have hl : result (Written.read scope ⟨0, left ++ .compare comparison :: right⟩) =
      .ok (l, ⟨0 + left.length, .compare comparison :: right⟩) :=
    Written.read_of_reads hleft nofun nofun
  have hr : result (Written.read scope ⟨0 + left.length + 1, right⟩) =
      .ok (r, ⟨0 + left.length + 1 + right.length, []⟩) := by
    have hread : result (Written.read scope ⟨0 + left.length + 1, right ++ []⟩) =
        .ok (r, ⟨0 + left.length + 1 + right.length, []⟩) :=
      Written.read_of_reads hright nofun nofun
    rw [List.append_nil] at hread
    exact hread
  have hlength : (left ++ .compare comparison :: right).length =
      0 + left.length + 1 + right.length := by
    simp only [List.length_append, List.length_cons]
    omega
  rw [hlength, readOne, result_bind, hl, ok_bind, result_bind, result_mk,
    readComparison_of_ne_nil comparison hright.ne_nil, ok_bind, result_bind, hr, ok_bind,
    result_bind, result_check, refusal?]
  cases checkAgainst (settle l r).1 (settle l r).2 with
  | some fault => rfl
  | none =>
    rw [ok_bind, result_bind, result_check]
    cases checkAgainst (settle l r).2 (settle l r).1 <;> rfl

theorem and_not_mem_of_sides (hleft : IsSide left) (hright : IsSide right) :
    Token.and ∉ left ++ .compare comparison :: right := by
  simp [hleft.and_not_mem, hright.and_not_mem]

theorem result_ofTokens (hleft : Written.Reads scope left l) (comparison : Comparison)
    (hright : Written.Reads scope right r) :
    result (ofTokens scope (left ++ .compare comparison :: right)) =
      match refusal? l r with
      | some fault => .error ⟨fault, (left ++ .compare comparison :: right).length⟩
      | none => .ok [compared l comparison r] := by
  have hcount : (left ++ .compare comparison :: right).count .and = 0 :=
    List.count_eq_zero.2 (and_not_mem_of_sides hleft.isSide hright.isSide)
  rw [ofTokens, hcount, readJoined, result_bind, result_readOne hleft comparison hright]
  cases refusal? l r <;> rfl

theorem result_parse {text : String} {t : Tokenized} (htext : tokenize text = .ok t)
    (htokens : t.tokens = left ++ .compare comparison :: right)
    (hleft : Written.Reads scope left l) (hright : Written.Reads scope right r) :
    result (parse scope text) =
      match refusal? l r with
      | some fault => .error ⟨fault, Token.offsetOf t.tokens t.tokens.length, t.text, .joined⟩
      | none => .ok ⟨t.text, [compared l comparison r]⟩ := by
  rw [parse, htext, result_bind, result_mk, ok_bind, result_bind, result_adapt, htokens,
    result_ofTokens hleft comparison hright]
  cases refusal? l r <;> rfl

theorem reads_compare_iff (hleft : IsSide left) {c : Condition} :
    Reads scope (left ++ .compare comparison :: right) c ↔ ∃ l r,
      Written.Reads scope left l ∧ Written.Reads scope right r ∧ refusal? l r = none ∧
        c = compared l comparison r := by
  constructor
  · intro h
    generalize hts : left ++ .compare comparison :: right = ts at h
    cases h with
    | @intro left' right' l r hl comparison' hr hfits hfits' =>
      have hleft' := congrArg leftSide hts
      rw [leftSide_append hleft, leftSide_append hl.isSide] at hleft'
      subst hleft'
      obtain ⟨hcomparison, rfl⟩ := List.cons.inj (List.append_cancel_left hts)
      cases hcomparison
      refine ⟨l, r, hl, hr, ?_, rfl⟩
      rw [refusal?, hfits, hfits']
      rfl
  · rintro ⟨l, r, hl, hr, hrefusal, rfl⟩
    obtain ⟨hfits, hfits'⟩ := Option.or_eq_none_iff.1 hrefusal
    exact .intro hl comparison hr hfits hfits'

/-- A text is one side of a condition, whether or not the side means anything. -/
structure WritesSide (text : String) (ts : List Token) : Prop where
  tokens : Lexer.collect ⟨0, text.toList⟩ [] = .ok ts
  side : IsSide ts

theorem WritesSide.ofText {text : String} {ts : List Token} (h : WritesSide text ts) :
    Token.ofText 0 text.toList = .ok ts :=
  (Lexer.collect_eq_ofText _).symm.trans h.tokens

theorem tokenize_sides {middle : String} (ha : Token.ofText 0 a.toList = .ok left)
    (hb : Token.ofText 0 b.toList = .ok right)
    (hmiddle : ∀ offset, Token.ofText offset middle.toList = .ok [.compare comparison])
    (hhead : middle.toList.head? ≠ some '&') (hlast : middle.toList.getLast? ≠ some '&') :
    tokenize (a ++ middle ++ b) =
      .ok ⟨String.ofList (Token.join (left ++ .compare comparison :: right)),
        left ++ .compare comparison :: right⟩ := by
  have htokens : Token.ofText 0 (a ++ middle ++ b).toList =
      .ok (left ++ .compare comparison :: right) := by
    rw [String.toList_append, String.toList_append, List.append_assoc]
    exact (Token.ofText_between rfl hmiddle hhead hlast).2 ⟨left, right, ha, hb, rfl⟩
  exact tokenize_eq_ok.2 ⟨htokens, by simp [Token.isCompare], rfl⟩

/-- A text of two sides is read just if both sides are, and nothing is wrong with them. -/
theorem parse_sides_iff {text : String} {t : Tokenized} {parsed : Parsed}
    (htext : tokenize text = .ok t) (htokens : t.tokens = left ++ .compare comparison :: right)
    (hleft : IsSide left) (hright : IsSide right) :
    result (parse scope text) = .ok parsed ↔ ∃ l r, Written.Reads scope left l ∧
      Written.Reads scope right r ∧ refusal? l r = none ∧
        parsed = ⟨t.text, [compared l comparison r]⟩ := by
  have hnone : Token.and ∉ t.tokens := htokens ▸ and_not_mem_of_sides hleft hright
  constructor
  · intro h
    obtain ⟨ts, hts, hconditions, hparsed⟩ := parse_eq_ok.1 h
    obtain ⟨htokens', -, ht⟩ := tokenize_eq_ok.1 htext
    cases htokens'.symm.trans hts
    obtain ⟨c, hreads, hcs⟩ := (ofTokens_eq_ok_of_not_mem hnone).1 hconditions
    rw [htokens] at hreads
    obtain ⟨l, r, hl, hr, hrefusal, rfl⟩ := (reads_compare_iff hleft).1 hreads
    obtain ⟨joined, conditions⟩ := parsed
    cases hcs
    exact ⟨l, r, hl, hr, hrefusal, congrArg (Parsed.mk · _) (hparsed.trans ht.symm)⟩
  · rintro ⟨l, r, hl, hr, hrefusal, rfl⟩
    have hresult := result_parse htext htokens hl hr
    rw [hrefusal] at hresult
    exact hresult

end Monitor.Condition

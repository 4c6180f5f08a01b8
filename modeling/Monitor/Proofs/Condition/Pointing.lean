import Monitor.Proofs.Condition.Indexing
import Monitor.Proofs.Condition.Spelling
import Monitor.Proofs.Expression.Pointing
import Monitor.Proofs.Expression.Reference

namespace Monitor.Condition

open Attempt Text
open Expression (plainScope)

variable {c : Char} {glyph : Glyph} {cs : List Char} {offset place : Nat} {t : Token}
  {ts : List Token}

theorem isAscii_of_isWordChar (h : isWordChar c = true) : IsAscii c := by
  simp only [isWordChar, Bool.or_eq_true, beq_iff_eq] at h
  obtain ((((hletter | hdigit) | rfl) | rfl) | rfl) | rfl := h
  · exact isAscii_of_isAsciiLetter hletter
  · exact isAscii_of_isAsciiDigit hdigit
  all_goals decide

theorem isAscii_of_isBlank (h : isBlank c = true) : IsAscii c := by
  simp only [isBlank, Bool.or_eq_true, beq_iff_eq] at h
  obtain ((((rfl | rfl) | rfl) | rfl) | rfl) | rfl := h <;> decide

theorem isAscii_of_comparison {comparison : Comparison}
    (h : Comparison.ofChar? c = some comparison) : IsAscii c := by
  unfold Comparison.ofChar? at h
  split at h <;> first | decide | cases h

theorem isAscii_of_glyph (h : Glyph.ofChar? c = some glyph) : IsAscii c := by
  rw [Glyph.ofChar?] at h
  split at h
  · rename_i hblank
    exact isAscii_of_isBlank hblank
  · split at h
    · rename_i hword
      exact isAscii_of_isWordChar hword
    · repeat' split at h
      case isFalse.isFalse.isFalse.isFalse =>
        obtain ⟨comparison, hcomparison, -⟩ := Option.map_eq_some_iff.1 h
        exact isAscii_of_comparison hcomparison
      all_goals
        rename_i heq
        rw [heq]
        decide

namespace Token

theorem isAscii_of_ofText (h : ofText offset cs = .ok ts) : ∀ c ∈ cs, IsAscii c := by
  induction cs generalizing offset ts with
  | nil => exact List.forall_mem_nil _
  | cons c cs ih =>
    obtain ⟨glyph, rest, hglyph, hrest, -⟩ := ofText_cons_eq_ok.1 h
    exact List.forall_mem_cons.2 ⟨isAscii_of_glyph hglyph, ih hrest⟩

theorem ofText_eq_error (h : ofText offset cs = .error place) :
    ∃ before c after, cs = before ++ c :: after ∧ place = offset + size before ∧
      (∀ d ∈ before, IsAscii d) ∧ Glyph.ofChar? c = none := by
  induction cs generalizing offset with
  | nil => cases h
  | cons c cs ih =>
    rw [ofText] at h
    cases hglyph : Glyph.ofChar? c with
    | none =>
      rw [hglyph] at h
      cases h
      exact ⟨[], c, cs, rfl, rfl, List.forall_mem_nil _, hglyph⟩
    | some glyph =>
      rw [hglyph] at h
      cases hrest : ofText (offset + c.utf8Size) cs with
      | ok rest =>
        rw [hrest] at h
        cases h
      | error later =>
        rw [hrest] at h
        cases h
        obtain ⟨before, d, after, rfl, rfl, hascii, hd⟩ := ih hrest
        refine ⟨c :: before, d, after, rfl, Nat.add_assoc _ _ _, ?_, hd⟩
        exact List.forall_mem_cons.2 ⟨isAscii_of_glyph hglyph, hascii⟩

theorem isAscii_of_mem_text (ht : t.Proper) (hc : c ∈ t.text) : IsAscii c := by
  cases t with
  | word letters => exact isAscii_of_isWordChar (ht.2 c hc)
  | compare comparison =>
    rw [List.mem_singleton.1 hc]
    cases comparison <;> decide
  | ampersands count =>
    rw [List.eq_of_mem_replicate hc]
    decide
  | opening | closing | dot | mask =>
    rw [List.mem_singleton.1 hc]
    decide
  | and =>
    rw [List.eq_of_mem_replicate (n := 2) hc]
    decide

theorem isAscii_of_mem_join (h : Tidy ts) (hc : c ∈ join ts) : IsAscii c := by
  obtain rfl | ⟨t, ht, hc⟩ := exists_of_mem_join hc
  · decide
  · exact isAscii_of_mem_text (h.proper t ht) hc

def spaced (ts : List Token) : List Char :=
  ts.flatMap fun t => t.text ++ [' ']

theorem join_append_cons (front back : List Token) (t : Token) :
    join (front ++ t :: back) = spaced front ++ join (t :: back) := by
  induction front with
  | nil => rfl
  | cons s front ih =>
    obtain ⟨u, more, hmore⟩ : ∃ u more, front ++ t :: back = u :: more :=
      List.exists_cons_of_ne_nil (List.append_ne_nil_of_right_ne_nil _ (List.cons_ne_nil _ _))
    have hspaced : spaced (s :: front) = s.text ++ ' ' :: spaced front := by
      rw [spaced, List.flatMap_cons, List.append_assoc]
      rfl
    rw [List.cons_append, hmore, join_cons_cons, ← hmore, ih, hspaced, List.append_assoc,
      List.cons_append]

theorem spaced_eq_join (hne : ts ≠ []) : spaced ts = join ts ++ [' '] := by
  induction ts with
  | nil => exact absurd rfl hne
  | cons t ts ih =>
    cases ts with
    | nil => exact List.append_nil _
    | cons s ts =>
      rw [join_cons_cons, List.append_assoc, List.cons_append, ← ih (List.cons_ne_nil s ts)]
      rw [spaced, List.flatMap_cons, List.append_assoc]
      rfl

/-- An offset in the joined text of tokens belongs to an index: the text of the token with that
index starts there, or the joined text ends there if there are not so many tokens. -/
inductive Begins (ts : List Token) (index offset : Nat) : Prop
  | token {front back : List Token} {t : Token} (hts : ts = front ++ t :: back)
      (hindex : index = front.length) {before after : List Char}
      (hbefore : before = spaced front) (hjoin : join ts = before ++ t.text ++ after)
      (hoffset : offset = size before) : Begins ts index offset
  | last (hindex : ts.length ≤ index) (hoffset : offset = size (join ts)) :
      Begins ts index offset

theorem exists_join_cons (t : Token) (back : List Token) :
    ∃ after, join (t :: back) = t.text ++ after := by
  cases back with
  | nil => exact ⟨[], (List.append_nil _).symm⟩
  | cons s back => exact ⟨_, rfl⟩

theorem begins_offsetOf (ts : List Token) (index : Nat) : Begins ts index (offsetOf ts index) := by
  have hoffset : offsetOf ts index = min (size (spaced (ts.take index))) (size (join ts)) := rfl
  rcases Nat.lt_or_ge index ts.length with hlt | hge
  · obtain ⟨after, hafter⟩ := exists_join_cons ts[index] (ts.drop (index + 1))
    have hsplit : ts = ts.take index ++ ts[index] :: ts.drop (index + 1) := by
      rw [← List.drop_eq_getElem_cons hlt, List.take_append_drop]
    have hjoin : join ts = spaced (ts.take index) ++ ts[index].text ++ after := by
      conv_lhs => rw [hsplit]
      rw [join_append_cons, hafter, List.append_assoc]
    refine .token hsplit (List.length_take_of_le (Nat.le_of_lt hlt)).symm rfl hjoin ?_
    rw [hoffset, hjoin, List.append_assoc, size_append]
    exact Nat.min_eq_left (Nat.le_add_right _ _)
  · refine .last hge ?_
    rw [hoffset, List.take_of_length_le hge]
    cases ts with
    | nil => rfl
    | cons t ts =>
      rw [spaced_eq_join (List.cons_ne_nil t ts), size_append]
      exact Nat.min_eq_right (Nat.le_add_right _ _)

end Token

variable {scope : Scope} {text : String} {e : Error}

theorem points_of_tokenize (h : tokenize text = .error e) :
    e.stage = .typed ∧ e.text = text ∧ Points text.toList e.offset := by
  simp only [tokenize, Lexer.collect_eq_ofText] at h
  split at h
  · rename_i place hplace
    cases h
    obtain ⟨before, c, after, hsplit, hoffset, hascii, -⟩ := Token.ofText_eq_error hplace
    rw [Nat.zero_add] at hoffset
    exact ⟨rfl, rfl, before, c :: after, hsplit, hoffset.symm, hascii⟩
  · rename_i ts hts
    split at h <;> cases h
    exact ⟨rfl, rfl, points_of_le (Token.isAscii_of_ofText hts) (Nat.div_le_self _ _)⟩

/-- An error is about the text that was typed, or about a token of its joined text. -/
inductive Error.Located (scope : Scope) (text : String) (e : Error) : Prop
  | typed (hstage : e.stage = .typed) (htext : e.text = text)
  | joined {tokens : List Token} {f : Failure} (hstage : e.stage = .joined)
      (htokenize : tokenize text = .ok ⟨e.text, tokens⟩)
      (hfails : result (ofTokens scope tokens) = .error f) (hfault : e.fault = f.fault)
      (hbegins : Token.Begins tokens f.index e.offset) : Located scope text e

theorem Token.Begins.points {tokens : List Token} {index offset : Nat}
    (h : Token.Begins tokens index offset) (hascii : ∀ c ∈ Token.join tokens, IsAscii c) :
    Points (Token.join tokens) offset := by
  refine points_of_le hascii ?_
  cases h with
  | token _ _ _ hjoin hoffset =>
    rw [hoffset, hjoin, List.append_assoc, size_append]
    exact Nat.le_add_right _ _
  | last _ hoffset => exact Nat.le_of_eq hoffset

theorem located_of_parse (h : result (parse scope text) = .error e) :
    e.Located scope text ∧ Points e.text.toList e.offset := by
  rw [parse, result_bind, result_mk] at h
  obtain htokenize | ⟨t, htokenize, h⟩ := bind_eq_error.1 h
  · obtain ⟨hstage, htext, hpoints⟩ := points_of_tokenize htokenize
    exact ⟨.typed hstage htext, htext.symm ▸ hpoints⟩
  · obtain ⟨htokens, -, htext⟩ := tokenize_eq_ok.1 htokenize
    rw [result_bind, result_adapt] at h
    cases hresult : result (ofTokens scope t.tokens) with
    | ok conditions =>
      rw [hresult] at h
      cases h
    | error f =>
      rw [hresult] at h
      cases h
      have hbegins := Token.begins_offsetOf t.tokens f.index
      refine ⟨.joined rfl htokenize hresult rfl hbegins, ?_⟩
      dsimp only
      rw [htext, String.toList_ofList]
      exact hbegins.points fun c =>
        Token.isAscii_of_mem_join (Token.tidy_ofText htokens)

/-- An evaluation looks at a text between characters only, further and further on, and the place
that it fails at is shown. -/
structure EvaluationPoints (scope : Scope) (text : String) : Prop where
  found : ∀ t ∈ Expression.tokens scope 0 text.toList, Expression.Found scope text.toList t
  forward : (Expression.tokens scope 0 text.toList).Pairwise (·.offset < ·.offset)
  failure : ∀ f, result (Expression.evaluate scope text) = .error f →
    f.offset ≤ size text.toList ∧
      ∀ heading, Marks text f.offset heading f.error.message (f.report heading text)

/-- Tokens are read inside of their list, further and further on, and whichever token is looked up
is there. Indices belong to places in the joined text. -/
structure ReadingPoints (scope : Scope) (tokens : List Token) : Prop where
  lookups : Reader.run ⟨scope, tokens⟩ = (ofTokens scope tokens).adapt .failure
  forward : ∀ cursor c next, cursor.Within tokens →
    result (readOne scope cursor) = .ok (c, next) →
      next.Within tokens ∧ cursor.index < next.index
  stays : ∀ cursor f, cursor.Within tokens → result (readOne scope cursor) = .error f →
    f.index ≤ tokens.length
  failure : ∀ f, result (ofTokens scope tokens) = .error f → f.index ≤ tokens.length
  begins : ∀ index, Token.Begins tokens index (Token.offsetOf tokens index)

/-- All errors point to the place that they are about. In the text that is shown there is nothing
but characters of one byte before it, so the caret is below that place. -/
theorem errors_point (scope : Scope) :
    (∀ text, EvaluationPoints scope text) ∧
      (∀ text e, result (parse scope text) = .error e →
        e.offset ≤ size e.text.toList ∧
          Marks e.text e.offset e.stage.heading e.message e.report ∧ e.Located scope text) ∧
      (∀ tokens, ReadingPoints scope tokens) ∧
        ∀ (l : Lexer) s next, l.next? = .ok (some (s, next)) → l.Cuts s next := by
  refine ⟨fun text => ⟨Expression.found_tokens, ?_, fun f hf => ?_⟩, fun text e he => ?_,
    fun tokens => ⟨Reader.run_eq _, ?_, ?_, ?_, ?_⟩, fun _ _ _ => Lexer.cuts_of_next?⟩
  · exact (Expression.pairwise_tokens scope 0 text.toList).2
  · have hpoints := Expression.points_of_evaluate hf
    exact ⟨hpoints.le_size, fun heading => hpoints.marks heading f.error.message⟩
  · obtain ⟨hlocated, hpoints⟩ := located_of_parse he
    exact ⟨hpoints.le_size, hpoints.marks e.stage.heading e.message, hlocated⟩
  · exact fun _ _ _ => lt_of_readOne
  · exact fun _ _ => index_le_of_readOne
  · exact fun _ => index_le_of_ofTokens
  · exact Token.begins_offsetOf tokens

def nameError : Error :=
  ⟨.invalidIndirectName, 2, "( zz ) . w = 1", .joined⟩

theorem errors_point_accented :
    Marks "1 +é" 3 "the expression" Expression.Error.malformed.message
        (Expression.Failure.report ⟨.malformed, 3⟩ "the expression" "1 +é") ∧
      Marks nameError.text nameError.offset "tokenized string" nameError.message
        nameError.report ∧
      ∃ f, result (ofTokens plainScope [.opening, .word ['z'], .closing]) = .error f ∧
        f.index ≤ 3 := by
  obtain ⟨hevaluation, hparse, htokens, -⟩ := errors_point plainScope
  have hmalformed : result (Expression.evaluate plainScope "1 +é") = .error ⟨.malformed, 3⟩ := by
    decide +kernel
  have hname : result (parse plainScope "(zz).w=1") = .error nameError := by
    decide +kernel
  have hfails : result (ofTokens plainScope [.opening, .word ['z'], .closing]) =
      .error ⟨.invalidIndirectName, 1⟩ := by
    decide +kernel
  exact ⟨((hevaluation _).failure _ hmalformed).2 _, (hparse _ _ hname).2.1, _, hfails,
    (htokens _).failure _ hfails⟩

end Monitor.Condition

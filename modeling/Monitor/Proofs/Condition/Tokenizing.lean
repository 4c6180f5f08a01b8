import Mathlib.Data.List.TakeWhile
import Monitor.Condition.Parsed
import Monitor.Proofs.Condition.Glyphs

namespace Monitor

theorem Comparison.symbol_eq {c : Char} {comparison : Comparison}
    (h : Comparison.ofChar? c = some comparison) : comparison.symbol = c := by
  unfold Comparison.ofChar? at h
  split at h <;> cases h <;> rfl

namespace Condition

namespace Token

variable {ts more : List Token} {t : Token}

theorem glue_nil (ts : List Token) : glue ts [] = ts := by
  induction ts with
  | nil => rfl
  | cons t ts ih => rw [glue_cons fun _ _ => rfl, ih]

theorem glue_cons_of_ne_nil (h : ts ≠ []) (t : Token) (more : List Token) :
    glue (t :: ts) more = t :: glue ts more :=
  glue_cons fun _ hts => absurd hts h

theorem push_ne_nil (ts : List Token) (t : Token) : push ts t ≠ [] := by
  unfold push
  split <;> exact List.append_ne_nil_of_right_ne_nil _ (List.cons_ne_nil _ _)

theorem push_cons (h : ts ≠ []) (s t : Token) : push (s :: ts) t = s :: push ts t := by
  obtain ⟨u, us, rfl⟩ := List.exists_cons_of_ne_nil h
  unfold push
  rw [List.getLast?_cons_cons, List.dropLast_cons_cons]
  split <;> rfl

theorem glue_push (ts : List Token) (t : Token) (more : List Token) :
    glue (push ts t) more = glue ts (glue [t] more) := by
  induction ts with
  | nil => cases t <;> rfl
  | cons s ts ih =>
    cases ts with
    | cons u us =>
      have hne : u :: us ≠ [] := List.cons_ne_nil u us
      rw [push_cons hne, glue_cons_of_ne_nil (push_ne_nil _ t), glue_cons_of_ne_nil hne, ih]
    | nil =>
      cases s with
      | word front =>
        cases t with
        | word back =>
          cases more with
          | nil => rfl
          | cons u more =>
            cases u with
            | word letters =>
              exact congrArg (Token.word · :: more) (List.append_assoc front back letters)
            | _ => rfl
        | _ => rfl
      | _ => rfl

end Token

namespace RawToken

def StartsWith (raw : RawToken) (c : Char) : Prop :=
  match raw with
  | .word => isWordChar c = true
  | .ampersands => c = '&'
  | .comparison => ∃ comparison, Comparison.ofChar? c = some comparison
  | .opening => c = '('
  | .closing => c = ')'
  | .dot => c = '.'

variable {raw : RawToken} {c : Char} {run : List Char}

theorem startsWith_of_ofChar? (h : ofChar? c = some raw) : raw.StartsWith c := by
  unfold ofChar? at h
  split at h
  · cases h
    assumption
  · repeat' split at h
    case isFalse.isFalse.isFalse.isFalse =>
      obtain ⟨comparison, hcomparison, rfl⟩ := Option.map_eq_some_iff.1 h
      exact ⟨comparison, hcomparison⟩
    all_goals
      cases h
      assumption

theorem glyph_of_ofChar?_eq_none (hblank : isBlank c = false) (h : ofChar? c = none) :
    Glyph.ofChar? c = none := by
  rw [Glyph.ofChar?, hblank]
  unfold ofChar? at h
  repeat' split at h
  all_goals simp_all

theorem exists_token (h : raw.StartsWith c) (hrun : ∀ d ∈ run, raw.takes d = true) : ∃ t,
    (∀ start, Slice.token? ⟨raw, start, c :: run⟩ = some t) ∧
      ∀ offset, Token.ofText offset (c :: run) = .ok [t] := by
  have halone (hnone : ∀ d, raw.takes d = false) : run = [] :=
    List.eq_nil_iff_forall_not_mem.2 fun d hd =>
      absurd (hrun d hd) (Bool.eq_false_iff.1 (hnone d))
  cases raw with
  | word =>
    exact ⟨.word (c :: run), fun _ => rfl,
      Token.ofText_letters (List.forall_mem_cons.2 ⟨h, hrun⟩) (List.cons_ne_nil c run)⟩
  | ampersands =>
    have hall : run = List.replicate run.length '&' :=
      List.eq_replicate_iff.2 ⟨rfl, fun d hd => beq_iff_eq.1 (hrun d hd)⟩
    cases h
    rw [hall, ← List.replicate_succ]
    refine ⟨.ofAmpersands (run.length + 1), fun _ => ?_, fun offset => ?_⟩
    · exact congrArg (fun n => some (Token.ofAmpersands n)) List.length_replicate
    · match run.length with
      | 0 | 1 => rfl
      | count + 2 => exact Token.ofText_ampersands count offset
  | comparison =>
    obtain ⟨comparison, hcomparison⟩ := h
    cases halone fun _ => rfl
    cases Comparison.symbol_eq hcomparison
    have hproper : Token.Proper (.compare comparison) := trivial
    exact ⟨.compare comparison, fun _ => congrArg (Option.map Token.compare) hcomparison,
      Token.ofText_text hproper⟩
  | opening | closing | dot =>
    cases h
    cases halone fun _ => rfl
    exact ⟨_, fun _ => rfl, fun _ => rfl⟩

theorem eq_ampersands_of_startsWith (h : raw.StartsWith '&') : raw = .ampersands := by
  cases raw with
  | ampersands => rfl
  | word =>
    have hword : isWordChar '&' = true := h
    exact absurd hword (by decide)
  | comparison =>
    obtain ⟨comparison, hcomparison⟩ := h
    cases hcomparison
  | opening | closing | dot => cases h

theorem eq_ampersands_of_takes (h : raw.takes '&' = true) : raw = .ampersands := by
  cases raw with
  | ampersands => rfl
  | word => exact absurd h (by decide)
  | comparison | opening | closing | dot => cases h

/-- A run of ampersands is taken as a whole. -/
theorem head?_ne_ampersand (h : raw.StartsWith c) (hrun : ∀ d ∈ run, raw.takes d = true)
    (hlast : (c :: run).getLast? = some '&') (cs : List Char) :
    (cs.dropWhile raw.takes).head? ≠ some '&' := by
  have hraw : raw = .ampersands := by
    rcases List.mem_cons.1 (List.mem_of_getLast? hlast) with rfl | hmem
    · exact eq_ampersands_of_startsWith h
    · exact eq_ampersands_of_takes (hrun _ hmem)
  intro hhead
  have hnot := List.head?_dropWhile_not raw.takes cs
  rw [hhead, hraw] at hnot
  cases hnot

end RawToken

namespace Lexer

variable {l next : Lexer} {s : Slice} {start : Nat}

theorem ofText_skip (l : Lexer) : Token.ofText l.offset l.rest =
    Token.ofText (l.offset + Text.size (l.rest.takeWhile isBlank)) (l.rest.dropWhile isBlank) := by
  have hall : ∀ c ∈ l.rest.takeWhile isBlank, isBlank c = true := fun _ => List.mem_takeWhile_imp
  have hblanks := Token.ofText_blanks hall l.offset (l.rest.dropWhile isBlank)
  rw [List.takeWhile_append_dropWhile] at hblanks
  exact hblanks

/-- A slice stands behind blanks, and the text goes on where it ends. -/
structure Cuts (l : Lexer) (s : Slice) (next : Lexer) : Prop where
  split : ∃ blanks, (∀ c ∈ blanks, isBlank c = true) ∧ l.rest = blanks ++ (s.text ++ next.rest) ∧
    s.start = l.offset + Text.size blanks
  text_ne_nil : s.text ≠ []
  offset : next.offset = s.start + Text.size s.text

theorem cuts_of_next? (h : l.next? = .ok (some (s, next))) : l.Cuts s next := by
  unfold next? at h
  split at h
  · cases h
  · rename_i c cs hrest
    split at h
    · cases h
    · rename_i raw _
      cases h
      have hsplit : l.rest = l.rest.takeWhile isBlank ++
          (c :: cs.takeWhile raw.takes ++ cs.dropWhile raw.takes) := by
        rw [List.cons_append, List.takeWhile_append_dropWhile, ← hrest,
          List.takeWhile_append_dropWhile]
      exact ⟨⟨_, fun _ => List.mem_takeWhile_imp, hsplit, rfl⟩, List.cons_ne_nil _ _, rfl⟩

inductive Agrees (l : Lexer) : Except Nat (Option (Slice × Lexer)) → Prop
  | error {start : Nat} (h : Token.ofText l.offset l.rest = .error start) : Agrees l (.error start)
  | done (h : Token.ofText l.offset l.rest = .ok []) : Agrees l (.ok none)
  | slice {s : Slice} {next : Lexer} {t : Token} (ht : s.token? = some t)
      (h : Token.ofText l.offset l.rest =
        (Token.ofText next.offset next.rest).map (Token.glue [t])) : Agrees l (.ok (some (s, next)))

theorem agrees_next? (l : Lexer) : l.Agrees l.next? := by
  have hskip := ofText_skip l
  rw [next?]
  cases hrest : l.rest.dropWhile isBlank with
  | nil =>
    rw [hrest] at hskip
    exact .done hskip
  | cons c cs =>
    rw [hrest] at hskip
    have hblank : isBlank c = false := by
      have hnot := List.head?_dropWhile_not isBlank l.rest
      rw [hrest] at hnot
      exact hnot
    dsimp only
    cases hraw : RawToken.ofChar? c with
    | none =>
      rw [Token.ofText, RawToken.glyph_of_ofChar?_eq_none hblank hraw] at hskip
      exact .error hskip
    | some raw =>
      have hstarts := RawToken.startsWith_of_ofChar? hraw
      have hrun : ∀ d ∈ cs.takeWhile raw.takes, raw.takes d = true :=
        fun _ => List.mem_takeWhile_imp
      obtain ⟨t, htoken, htext⟩ := RawToken.exists_token hstarts hrun
      have hsplit : c :: cs = (c :: cs.takeWhile raw.takes) ++ cs.dropWhile raw.takes := by
        rw [List.cons_append, List.takeWhile_append_dropWhile]
      rw [hsplit, Token.ofText_append fun h => RawToken.head?_ne_ampersand hstarts hrun h cs,
        htext, Except.bind] at hskip
      exact .slice (htoken _) hskip

theorem collect_eq_map (l : Lexer) (ts : List Token) :
    l.collect ts = (Token.ofText l.offset l.rest).map (Token.glue ts) := by
  fun_induction collect l ts with
  | case1 l ts start hnext =>
    cases hnext ▸ agrees_next? l with
    | error h => rw [h]; rfl
  | case2 l ts hnext =>
    cases hnext ▸ agrees_next? l with
    | done h => rw [h, Except.map, Token.glue_nil]
  | case3 l ts s next hnext htoken =>
    cases hnext ▸ agrees_next? l with
    | slice ht => cases htoken.symm.trans ht
  | case4 l ts s next hnext t htoken ih =>
    cases hnext ▸ agrees_next? l with
    | slice ht h =>
      cases htoken.symm.trans ht
      rw [ih, h]
      cases Token.ofText next.offset next.rest with
      | error start => rfl
      | ok more => exact congrArg Except.ok (Token.glue_push ts t more)

/-- The tokens that a lexer collects are those that the characters make one by one. -/
theorem collect_eq_ofText (cs : List Char) : collect ⟨0, cs⟩ [] = Token.ofText 0 cs := by
  rw [collect_eq_map]
  cases Token.ofText 0 cs <;> rfl

end Lexer

theorem tokenize_eq_ok {text : String} {t : Tokenized} : tokenize text = .ok t ↔
    Token.ofText 0 text.toList = .ok t.tokens ∧ t.tokens.any Token.isCompare = true ∧
      t.text = String.ofList (Token.join t.tokens) := by
  obtain ⟨joined, tokens⟩ := t
  simp only [tokenize, Lexer.collect_eq_ofText]
  cases Token.ofText 0 text.toList with
  | error offset => simp
  | ok ts =>
    cases hcompare : ts.any Token.isCompare with
    | false =>
      simp only [hcompare, Bool.false_eq_true, if_false, Except.ok.injEq, reduceCtorEq, false_iff]
      rintro ⟨rfl, hany, -⟩
      exact absurd (hcompare.symm.trans hany) Bool.false_ne_true
    | true =>
      simp only [hcompare, if_true, Except.ok.injEq, Tokenized.mk.injEq]
      constructor
      · rintro ⟨rfl, rfl⟩
        exact ⟨rfl, hcompare, rfl⟩
      · rintro ⟨rfl, -, rfl⟩
        exact ⟨rfl, rfl⟩

/-- A text that has been split is split in the same way once its tokens have been joined. All that
is read from it stays the same, errors and the places of errors included. -/
theorem tokenize_text {text : String} {t : Tokenized} (h : tokenize text = .ok t) :
    tokenize t.text = .ok t ∧ ∀ scope, parse scope t.text = parse scope text := by
  have htext : tokenize t.text = .ok t := by
    obtain ⟨htokens, hcompare, htext⟩ := tokenize_eq_ok.1 h
    refine tokenize_eq_ok.2 ⟨?_, hcompare, htext⟩
    rw [htext, String.toList_ofList]
    exact Token.ofText_join (Token.tidy_ofText htokens) 0
  refine ⟨htext, fun scope => ?_⟩
  rw [parse, parse, htext, h]

def spread : Tokenized where
  text := "( a0 ) . w & 1f = & & d0 &&& 1 && d0 ! 3"
  tokens :=
    [.opening, .word ['a', '0'], .closing, .dot, .word ['w'], .mask, .word ['1', 'f'],
      .compare .equal, .mask, .mask, .word ['d', '0'], .ampersands 3, .word ['1'], .and,
      .word ['d', '0'], .compare .different, .word ['3']]

theorem tokenize_text_spread :
    tokenize " (a 0).w& 1 f=& &d0&&&1 &&d 0!3 " = .ok spread ∧
      tokenize spread.text = .ok spread ∧
      parse ⟨Machine.ofRam 16, .cpu, .hexadecimal⟩ spread.text =
        parse ⟨Machine.ofRam 16, .cpu, .hexadecimal⟩ " (a 0).w& 1 f=& &d0&&&1 &&d 0!3 " := by
  have h : tokenize " (a 0).w& 1 f=& &d0&&&1 &&d 0!3 " = .ok spread := by
    decide +kernel
  exact ⟨h, (tokenize_text h).1, (tokenize_text h).2 _⟩

end Condition

end Monitor

import Monitor.Proofs.Condition.Segments

namespace Monitor.Condition

theorem ne_ampersand_of_isBlank {c : Char} (h : isBlank c = true) : c ≠ '&' := by
  rintro rfl
  exact absurd h (by decide)

namespace Token

variable {t : Token} {ts ts' front : List Token} {us vs ws : List Char} {c : Char} {glyph : Glyph}
  {offset : Nat}

theorem ofText_insert_blanks (hws : ∀ c ∈ ws, isBlank c = true)
    (h : us.getLast? = some '&' → vs.head? ≠ some '&') :
    ofText offset (us ++ (ws ++ vs)) = .ok ts ↔ ofText offset (us ++ vs) = .ok ts := by
  cases ws with
  | nil => rfl
  | cons c ws =>
    have hhead : (c :: ws ++ vs).head? ≠ some '&' := fun heq =>
      ne_ampersand_of_isBlank (hws c (List.mem_cons_self ..)) (Option.some.inj heq)
    rw [ofText_append fun _ => hhead, ofText_append h, ofText_blanks hws]
    cases ofText offset us with
    | error e => rfl
    | ok front =>
      rw [Except.bind, Except.bind]
      cases hvs : ofText (offset + Text.size us) vs with
      | ok more => rw [ofText_eq_ok_shift hvs]
      | error e =>
        cases hvs' : ofText (offset + Text.size us + Text.size (c :: ws)) vs with
        | ok more => cases hvs.symm.trans (ofText_eq_ok_shift hvs' _)
        | error e' => simp [Except.map]

theorem cons_eq_append (c : Char) (glyph : Glyph) (next : Option Char) (t : Token)
    (ts : List Token) : cons c glyph next (t :: ts) = cons c glyph next [t] ++ ts := by
  cases glyph with
  | letter => cases t <;> rfl
  | ampersand =>
    rw [cons, cons]
    split
    · cases t <;> rfl
    · rfl
  | blank | compare | opening | closing | dot => rfl

/-- The same tokens, but for one run of ampersands that has become two. -/
inductive SplitsRun : List Token → List Token → Prop
  | here {t t₁ t₂ : Token} {ts : List Token} (ht : t.isRun = true) (ht₁ : t₁.isRun = true)
      (ht₂ : t₂.isRun = true) : SplitsRun (t :: ts) (t₁ :: t₂ :: ts)
  | later {t : Token} {ts ts' : List Token} (h : SplitsRun ts ts') : SplitsRun (t :: ts) (t :: ts')

theorem SplitsRun.append_left (h : SplitsRun ts ts') (front : List Token) :
    SplitsRun (front ++ ts) (front ++ ts') := by
  induction front with
  | nil => exact h
  | cons t front ih => exact .later ih

theorem exists_run_moreAmpersands (h : t.isRun = true) :
    ∃ run, run.isRun = true ∧ ∀ ts, moreAmpersands (t :: ts) = run :: ts := by
  cases t with
  | mask | and | ampersands => exact ⟨_, rfl, fun _ => rfl⟩
  | word | compare | opening | closing | dot => cases h

theorem moreLetters_of_isRun (h : t.isRun = true) (c : Char) (ts : List Token) :
    moreLetters c (t :: ts) = .word [c] :: t :: ts := by
  cases t with
  | word letters => cases h
  | _ => rfl

theorem SplitsRun.cons (h : SplitsRun ts ts') (c : Char) (glyph : Glyph) (next : Option Char) :
    SplitsRun (Token.cons c glyph next ts) (Token.cons c glyph next ts') := by
  cases h with
  | @later t more more' h =>
    rw [cons_eq_append, cons_eq_append c glyph next t more']
    exact h.append_left _
  | here ht ht₁ ht₂ =>
    cases glyph with
    | blank => exact .here ht ht₁ ht₂
    | letter =>
      rw [Token.cons, Token.cons, moreLetters_of_isRun ht, moreLetters_of_isRun ht₁]
      exact .later (.here ht ht₁ ht₂)
    | ampersand =>
      obtain ⟨run, hrun, hmore⟩ := exists_run_moreAmpersands ht
      obtain ⟨run₁, hrun₁, hmore₁⟩ := exists_run_moreAmpersands ht₁
      rw [Token.cons, Token.cons, hmore, hmore₁]
      split
      · exact .here hrun hrun₁ ht₂
      · exact .later (.here ht ht₁ ht₂)
    | compare | opening | closing | dot => exact .later (.here ht ht₁ ht₂)

theorem SplitsRun.any_isCompare (h : SplitsRun ts ts') :
    ts'.any isCompare = ts.any isCompare := by
  induction h with
  | @here t t₁ t₂ ts ht ht₁ ht₂ =>
    have hrun {t : Token} (ht : t.isRun = true) : t.isCompare = false := by
      cases t <;> first | rfl | cases ht
    rw [List.any_cons, List.any_cons, List.any_cons, hrun ht, hrun ht₁, hrun ht₂, Bool.false_or]
  | later _ ih => rw [List.any_cons, List.any_cons, ih]

theorem splitsRun_of_blanks (hws : ∀ c ∈ ws, isBlank c = true) (hne : ws ≠ [])
    (h : ofText offset (us ++ '&' :: '&' :: vs) = .ok ts) :
    ∃ ts', ofText offset (us ++ '&' :: (ws ++ '&' :: vs)) = .ok ts' ∧ SplitsRun ts ts' := by
  induction us generalizing offset ts with
  | nil =>
    obtain ⟨glyph, rest, hglyph, hrest, rfl⟩ := ofText_cons_eq_ok.1 h
    cases hglyph.symm.trans (by decide : Glyph.ofChar? '&' = some .ampersand)
    obtain ⟨run, more, rfl, hrun⟩ := ofText_ampersand hrest
    obtain ⟨run', hrun', hmore⟩ := exists_run_moreAmpersands hrun
    have hblanks : ofText (offset + '&'.utf8Size) (ws ++ '&' :: vs) = .ok (run :: more) := by
      rw [ofText_blanks hws]
      exact ofText_eq_ok_shift hrest _
    have hhead : (ws ++ '&' :: vs).head? ≠ some '&' := by
      obtain ⟨c, ws, rfl⟩ := List.exists_cons_of_ne_nil hne
      exact fun heq =>
        ne_ampersand_of_isBlank (hws c (List.mem_cons_self ..)) (Option.some.inj heq)
    refine ⟨.mask :: run :: more, ofText_cons_eq_ok.2 ⟨.ampersand, _, hglyph, hblanks, ?_⟩, ?_⟩
    · rw [cons, if_neg hhead]
    · rw [List.head?_cons, cons, if_pos rfl, hmore]
      exact .here hrun' rfl hrun
  | cons c us ih =>
    rw [List.cons_append] at h ⊢
    obtain ⟨glyph, rest, hglyph, hrest, rfl⟩ := ofText_cons_eq_ok.1 h
    obtain ⟨rest', hrest', hsplits⟩ := ih hrest
    have hhead : (us ++ '&' :: (ws ++ '&' :: vs)).head? = (us ++ '&' :: '&' :: vs).head? := by
      cases us <;> rfl
    refine ⟨_, ofText_cons_eq_ok.2 ⟨glyph, rest', hglyph, hrest', rfl⟩, ?_⟩
    rw [hhead]
    exact hsplits.cons c glyph _

end Token

theorem tokenize_congr {text text' : String}
    (h : ∀ ts, Token.ofText 0 text.toList = .ok ts ↔ Token.ofText 0 text'.toList = .ok ts) :
    (tokenize text).mapError Error.fault = (tokenize text').mapError Error.fault := by
  simp only [tokenize, Lexer.collect_eq_ofText]
  cases htext : Token.ofText 0 text.toList with
  | ok ts =>
    rw [(h ts).1 htext]
    dsimp only
    split <;> rfl
  | error offset =>
    cases htext' : Token.ofText 0 text'.toList with
    | ok ts => cases htext.symm.trans ((h ts).2 htext')
    | error offset' => rfl

/-- Two texts make a run of ampersands where they meet. -/
def MeetInRun (u v : String) : Prop :=
  u.toList.getLast? = some '&' ∧ v.toList.head? = some '&'

/-- Blanks mean nothing, wherever they stand in a text, except that they split a run of
ampersands. -/
theorem tokenize_blanks (u w v : String) (hw : ∀ c ∈ w.toList, isBlank c = true) :
    (¬MeetInRun u v →
      (tokenize (u ++ w ++ v)).mapError Error.fault = (tokenize (u ++ v)).mapError Error.fault) ∧
    (MeetInRun u v → w ≠ "" → ∀ t, tokenize (u ++ v) = .ok t →
      ∃ t', tokenize (u ++ w ++ v) = .ok t' ∧ Token.SplitsRun t.tokens t'.tokens) := by
  constructor
  · intro hmeet
    refine tokenize_congr fun ts => ?_
    rw [String.toList_append, String.toList_append, String.toList_append, List.append_assoc]
    exact Token.ofText_insert_blanks hw fun hu hv => hmeet ⟨hu, hv⟩
  · rintro ⟨hu, hv⟩ hne t ht
    obtain ⟨us, hus⟩ := List.getLast?_eq_some_iff.1 hu
    obtain ⟨vs, hvs⟩ := List.head?_eq_some_iff.1 hv
    have hws : w.toList ≠ [] := fun h => hne (String.toList_eq_nil_iff.1 h)
    obtain ⟨htokens, hcompare, -⟩ := tokenize_eq_ok.1 ht
    rw [String.toList_append, hus, hvs, List.append_assoc, List.singleton_append] at htokens
    obtain ⟨ts', hts', hsplits⟩ := Token.splitsRun_of_blanks hw hws htokens
    refine ⟨⟨.ofList (Token.join ts'), ts'⟩,
      tokenize_eq_ok.2 ⟨?_, hsplits.any_isCompare.trans hcompare, rfl⟩, hsplits⟩
    rw [String.toList_append, String.toList_append, hus, hvs, List.append_assoc, List.append_assoc,
      List.singleton_append]
    exact hts'

theorem tokenize_blanks_spread :
    (tokenize ("p" ++ "\t\n" ++ "c=4")).mapError Error.fault =
        .ok ⟨"pc = 4", [.word ['p', 'c'], .compare .equal, .word ['4']]⟩ ∧
      ∃ t, tokenize ("d0&" ++ " " ++ "&1=1") = .ok t ∧
        Token.SplitsRun [.word ['d', '0'], .and, .word ['1'], .compare .equal, .word ['1']]
          t.tokens := by
  have hblank : ∀ c ∈ "\t\n".toList, isBlank c = true := List.all_eq_true.1 (by decide)
  have hspace : ∀ c ∈ " ".toList, isBlank c = true := List.all_eq_true.1 (by decide)
  have hjoined : tokenize ("d0&" ++ "&1=1") = .ok ⟨"d0 && 1 = 1",
      [.word ['d', '0'], .and, .word ['1'], .compare .equal, .word ['1']]⟩ := by
    decide +kernel
  constructor
  · rw [(tokenize_blanks "p" "\t\n" "c=4" hblank).1 (by rw [MeetInRun]; decide)]
    decide +kernel
  · exact (tokenize_blanks "d0&" " " "&1=1" hspace).2 ⟨rfl, rfl⟩ (by decide) _ hjoined

end Monitor.Condition

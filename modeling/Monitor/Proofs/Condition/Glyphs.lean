import Monitor.Condition.Lexer
import Monitor.Proofs.Attempt

namespace Monitor.Condition

inductive Glyph
  | blank
  | letter
  | ampersand
  | compare (comparison : Comparison)
  | opening
  | closing
  | dot
  deriving DecidableEq, Repr

def Glyph.ofChar? (c : Char) : Option Glyph :=
  if isBlank c then some .blank
  else if isWordChar c then some .letter
  else if c = '&' then some .ampersand
  else if c = '(' then some .opening
  else if c = ')' then some .closing
  else if c = '.' then some .dot
  else (Comparison.ofChar? c).map .compare

namespace Token

def moreAmpersands : List Token → List Token
  | .mask :: more => .and :: more
  | .and :: more => .ampersands 3 :: more
  | .ampersands count :: more => .ampersands (count + 1) :: more
  | more => .mask :: more

def moreLetters (c : Char) : List Token → List Token
  | .word letters :: more => .word (c :: letters) :: more
  | more => .word [c] :: more

/-- Puts a character in front of the tokens of the text that follows it. Letters join the word that
comes next, whatever blanks there are between them; ampersands join only their neighbours. -/
def cons (c : Char) (glyph : Glyph) (next : Option Char) (tokens : List Token) : List Token :=
  match glyph with
  | .blank => tokens
  | .letter => moreLetters c tokens
  | .ampersand => if next = some '&' then moreAmpersands tokens else .mask :: tokens
  | .compare comparison => .compare comparison :: tokens
  | .opening => .opening :: tokens
  | .closing => .closing :: tokens
  | .dot => .dot :: tokens

/-- The tokens of a text, or the offset of the first character that has no place in a condition. -/
def ofText (offset : Nat) : List Char → Except Nat (List Token)
  | [] => .ok []
  | c :: cs =>
    match Glyph.ofChar? c with
    | none => .error offset
    | some glyph => (ofText (offset + c.utf8Size) cs).map (cons c glyph cs.head?)

end Token

namespace Glyph

variable {c : Char}

theorem ofChar?_eq_letter (h : ofChar? c = some .letter) : isWordChar c = true := by
  unfold ofChar? at h
  split at h
  · cases h
  · split at h
    · assumption
    · repeat' split at h
      all_goals simp at h

theorem ofChar?_eq_ampersand (h : ofChar? c = some .ampersand) : c = '&' := by
  unfold ofChar? at h
  repeat' split at h
  all_goals first | assumption | simp at h

theorem ofChar?_of_isBlank (h : isBlank c = true) : ofChar? c = some .blank := by
  rw [ofChar?, if_pos h]

theorem ofChar?_of_isWordChar (h : isWordChar c = true) : ofChar? c = some .letter := by
  have hblank : isBlank c = false := by
    refine Bool.eq_false_iff.2 fun hblank => ?_
    simp only [isBlank, Bool.or_eq_true, beq_iff_eq] at hblank
    obtain ((((rfl | rfl) | rfl) | rfl) | rfl) | rfl := hblank <;> exact absurd h (by decide)
  rw [ofChar?, hblank, h]
  rfl

end Glyph

namespace Token

variable {t : Token} {ts more : List Token} {cs us vs : List Char} {c : Char} {glyph : Glyph}
  {offset : Nat}

def isWord : Token → Bool
  | .word _ => true
  | _ => false

def isRun : Token → Bool
  | .mask | .and | .ampersands _ => true
  | _ => false

theorem isWord_of_isRun (h : t.isRun = true) : t.isWord = false := by
  cases t with
  | word letters => cases h
  | _ => rfl

/-- The tokens of two texts, one after the other. A word at the end of the first and a word at the
front of the second make one word. -/
def glue : List Token → List Token → List Token
  | [], more => more
  | [.word front], .word back :: more => .word (front ++ back) :: more
  | t :: ts, more => t :: glue ts more

theorem glue_cons (h : t.isWord = true → ts = [] → more.head?.any isWord = false) :
    glue (t :: ts) more = t :: glue ts more := by
  cases t with
  | word letters =>
    cases ts with
    | nil =>
      cases more with
      | nil => rfl
      | cons s more =>
        cases s with
        | word => exact absurd (h rfl rfl) Bool.noConfusion
        | _ => rfl
    | cons => rfl
  | _ => rfl

theorem glue_of_not_word (h : t.isWord = false) (ts more : List Token) :
    glue ts (t :: more) = ts ++ t :: more := by
  induction ts with
  | nil => rfl
  | cons s ts ih =>
    rw [glue_cons fun _ _ => by simp [h], ih]
    rfl

theorem moreLetters_glue (c : Char) (ts more : List Token) :
    moreLetters c (glue ts more) = glue (moreLetters c ts) more := by
  cases ts with
  | nil =>
    cases more with
    | nil => rfl
    | cons t more => cases t <;> rfl
  | cons t ts =>
    cases t with
    | word letters =>
      cases ts with
      | nil =>
        cases more with
        | nil => rfl
        | cons t more => cases t <;> rfl
      | cons s ts => rfl
    | _ => rfl

theorem moreAmpersands_glue (h : t.isWord = false) (ts more : List Token) :
    moreAmpersands (glue (t :: ts) more) = glue (moreAmpersands (t :: ts)) more := by
  cases t with
  | word letters => cases h
  | _ => rfl

theorem ofText_cons_eq_ok : ofText offset (c :: cs) = .ok ts ↔
    ∃ glyph rest, Glyph.ofChar? c = some glyph ∧ ofText (offset + c.utf8Size) cs = .ok rest ∧
      ts = cons c glyph cs.head? rest := by
  rw [ofText]
  cases Glyph.ofChar? c with
  | none => simp
  | some glyph =>
    cases ofText (offset + c.utf8Size) cs with
    | error e => simp [Except.map]
    | ok rest => simp [Except.map, eq_comm]

theorem ofText_ampersand (h : ofText offset ('&' :: cs) = .ok ts) :
    ∃ t more, ts = t :: more ∧ t.isRun = true := by
  obtain ⟨glyph, rest, hglyph, _, rfl⟩ := ofText_cons_eq_ok.1 h
  cases hglyph.symm.trans (by decide : Glyph.ofChar? '&' = some .ampersand)
  rw [cons]
  split
  · cases rest with
    | nil => exact ⟨_, _, rfl, rfl⟩
    | cons t rest => cases t <;> exact ⟨_, _, rfl, rfl⟩
  · exact ⟨_, _, rfl, rfl⟩

theorem cons_glue (hus : ofText offset us = .ok ts)
    (h : (c :: us).getLast? = some '&' → vs.head? ≠ some '&')
    (hglyph : Glyph.ofChar? c = some glyph) :
    cons c glyph (us ++ vs).head? (glue ts more) = glue (cons c glyph us.head? ts) more := by
  cases glyph with
  | blank => rfl
  | letter => exact moreLetters_glue c ts more
  | ampersand =>
    cases Glyph.ofChar?_eq_ampersand hglyph
    cases us with
    | nil =>
      cases hus
      rw [List.nil_append, cons, if_neg (h rfl)]
      rfl
    | cons d us =>
      by_cases hd : d = '&'
      · subst hd
        obtain ⟨t, rest, rfl, ht⟩ := ofText_ampersand hus
        exact moreAmpersands_glue (isWord_of_isRun ht) rest more
      · have hhead : some d ≠ some '&' := fun heq => hd (Option.some.inj heq)
        rw [List.cons_append, List.head?_cons, List.head?_cons, cons, cons, if_neg hhead,
          if_neg hhead]
        rfl
  | compare | opening | closing | dot => rfl

/-- Texts that do not meet in a run of ampersands are split one by one. -/
theorem ofText_append (h : us.getLast? = some '&' → vs.head? ≠ some '&') (offset : Nat) :
    ofText offset (us ++ vs) = (ofText offset us).bind fun ts =>
      (ofText (offset + Text.size us) vs).map (glue ts) := by
  induction us generalizing offset with
  | nil =>
    have hid : glue [] = id := rfl
    rw [ofText, Except.bind, hid, Except.map_id]
    rfl
  | cons c us ih =>
    have hrest : us.getLast? = some '&' → vs.head? ≠ some '&' := by
      intro hlast
      apply h
      rw [List.getLast?_cons, hlast]
      rfl
    rw [List.cons_append, ofText, ofText]
    cases hglyph : Glyph.ofChar? c with
    | none => rfl
    | some glyph =>
      dsimp only
      rw [ih hrest, Text.size, ← Nat.add_assoc]
      cases hus : ofText (offset + c.utf8Size) us with
      | error e => rfl
      | ok ts =>
        cases ofText (offset + c.utf8Size + Text.size us) vs with
        | error e => rfl
        | ok more => exact congrArg Except.ok (cons_glue hus h hglyph)

theorem ofText_blanks (hvs : ∀ c ∈ vs, isBlank c = true) (offset : Nat) (cs : List Char) :
    ofText offset (vs ++ cs) = ofText (offset + Text.size vs) cs := by
  induction vs generalizing offset with
  | nil => rfl
  | cons c vs ih =>
    obtain ⟨hc, hvs⟩ := List.forall_mem_cons.1 hvs
    have hid : cons c .blank (vs ++ cs).head? = id := rfl
    rw [List.cons_append, ofText, Glyph.ofChar?_of_isBlank hc]
    dsimp only
    rw [hid, Except.map_id, ih hvs, Text.size, Nat.add_assoc]
    rfl

theorem ofText_blank (offset : Nat) (cs : List Char) :
    ofText offset (' ' :: cs) = ofText (offset + 1) cs := by
  have hblank : ∀ c ∈ [' '], isBlank c = true := List.all_eq_true.1 rfl
  exact ofText_blanks hblank offset cs

def Proper : Token → Prop
  | .word letters => letters ≠ [] ∧ ∀ c ∈ letters, isWordChar c = true
  | .ampersands count => 3 ≤ count
  | _ => True

/-- Tokens that some text can make: no two words are side by side. -/
inductive Tidy : List Token → Prop
  | nil : Tidy []
  | cons {t : Token} {ts : List Token} (ht : t.Proper)
      (hsep : t.isWord = true → ts.head?.any isWord = false) (hts : Tidy ts) : Tidy (t :: ts)

theorem tidy_moreLetters (hc : isWordChar c = true) (h : Tidy ts) : Tidy (moreLetters c ts) := by
  cases h with
  | nil => exact .cons ⟨List.cons_ne_nil _ _, by simpa using hc⟩ (fun _ => rfl) .nil
  | @cons t ts ht hsep hts =>
    cases t with
    | word letters =>
      exact .cons ⟨List.cons_ne_nil _ _, List.forall_mem_cons.2 ⟨hc, ht.2⟩⟩ hsep hts
    | _ =>
      exact .cons ⟨List.cons_ne_nil _ _, by simpa using hc⟩ (fun _ => rfl) (.cons ht hsep hts)

theorem tidy_moreAmpersands (h : Tidy ts) : Tidy (moreAmpersands ts) := by
  cases h with
  | nil => exact .cons trivial nofun .nil
  | @cons t ts ht hsep hts =>
    cases t with
    | mask => exact .cons trivial nofun hts
    | and => exact .cons (Nat.le_refl 3) nofun hts
    | ampersands count => exact .cons (Nat.le_succ_of_le ht) nofun hts
    | _ => exact .cons trivial nofun (.cons ht hsep hts)

theorem tidy_cons (hglyph : Glyph.ofChar? c = some glyph) (next : Option Char) (h : Tidy ts) :
    Tidy (cons c glyph next ts) := by
  cases glyph with
  | blank => exact h
  | letter => exact tidy_moreLetters (Glyph.ofChar?_eq_letter hglyph) h
  | ampersand =>
    rw [cons]
    split
    · exact tidy_moreAmpersands h
    · exact .cons trivial nofun h
  | compare | opening | closing | dot => exact .cons trivial nofun h

theorem tidy_ofText (h : ofText offset cs = .ok ts) : Tidy ts := by
  induction cs generalizing offset ts with
  | nil =>
    cases h
    exact .nil
  | cons c cs ih =>
    obtain ⟨glyph, rest, hglyph, hrest, rfl⟩ := ofText_cons_eq_ok.1 h
    exact tidy_cons hglyph cs.head? (ih hrest)

theorem ofText_letters (h : ∀ c ∈ cs, isWordChar c = true) (hne : cs ≠ []) (offset : Nat) :
    ofText offset cs = .ok [.word cs] := by
  induction cs generalizing offset with
  | nil => exact absurd rfl hne
  | cons c cs ih =>
    obtain ⟨hc, hcs⟩ := List.forall_mem_cons.1 h
    refine ofText_cons_eq_ok.2 ⟨.letter, ?_⟩
    cases cs with
    | nil => exact ⟨[], Glyph.ofChar?_of_isWordChar hc, rfl, rfl⟩
    | cons d cs =>
      exact ⟨_, Glyph.ofChar?_of_isWordChar hc, ih hcs (List.cons_ne_nil _ _) _, rfl⟩

theorem ofText_ampersands (count offset : Nat) :
    ofText offset (List.replicate (count + 3) '&') = .ok [.ampersands (count + 3)] := by
  have hglyph : Glyph.ofChar? '&' = some .ampersand := by decide
  induction count generalizing offset with
  | zero => rfl
  | succ count ih => exact ofText_cons_eq_ok.2 ⟨.ampersand, _, hglyph, ih _, rfl⟩

theorem ofText_text (h : t.Proper) (offset : Nat) : ofText offset t.text = .ok [t] := by
  cases t with
  | word letters => exact ofText_letters h.2 h.1 offset
  | ampersands count =>
    obtain ⟨count, rfl⟩ := Nat.exists_eq_add_of_le' h
    exact ofText_ampersands count offset
  | compare comparison => cases comparison <;> rfl
  | opening | closing | dot | mask | and => rfl

theorem ofText_join (h : Tidy ts) (offset : Nat) : ofText offset (join ts) = .ok ts := by
  induction h generalizing offset with
  | nil => rfl
  | @cons t ts ht hsep hts ih =>
    cases ts with
    | nil => exact ofText_text ht offset
    | cons s ts =>
      rw [join, ofText_append fun _ => by simp, ofText_text ht, Except.bind, ofText_blank, ih]
      exact congrArg Except.ok (glue_cons fun h _ => hsep h)
      simp

end Token

end Monitor.Condition

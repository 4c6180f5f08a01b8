import Monitor.Proofs.Condition.Segments
import Monitor.Proofs.Expression.Naming
import Monitor.Proofs.Text

namespace Monitor.Condition

open Attempt Text

variable {c : Char} {t : Token} {ts : List Token}

structure Printable (c : Char) : Prop where
  blank : Text.isBlank c = false
  colon : c ≠ ':'

theorem printable_of_isWordChar (h : isWordChar c = true) : Printable c := by
  simp only [isWordChar, Bool.or_eq_true, beq_iff_eq, isAsciiLetter_iff, isAsciiDigit_iff] at h
  obtain (((hcode | rfl) | rfl) | rfl) | rfl := h
  · have hblank : Text.isBlank c = false := by
      simp only [Text.isBlank, Bool.or_eq_false_iff, Bool.and_eq_false_imp, beq_eq_false_iff_ne,
        decide_eq_true_eq, decide_eq_false_iff_not]
      omega
    have hcolon : c ≠ ':' := by
      rintro rfl
      exact absurd hcode (by decide)
    exact ⟨hblank, hcolon⟩
  all_goals exact ⟨by decide, by decide⟩

namespace Token

theorem printable_of_mem_text (ht : t.Proper) (hc : c ∈ t.text) : Printable c := by
  cases t with
  | word letters => exact printable_of_isWordChar (ht.2 c hc)
  | compare comparison =>
    rw [List.mem_singleton.1 hc]
    cases comparison <;> exact ⟨by decide, by decide⟩
  | ampersands count =>
    rw [List.eq_of_mem_replicate hc]
    exact ⟨by decide, by decide⟩
  | opening | closing | dot | mask =>
    rw [List.mem_singleton.1 hc]
    exact ⟨by decide, by decide⟩
  | and =>
    rw [List.eq_of_mem_replicate (n := 2) hc]
    exact ⟨by decide, by decide⟩

theorem text_ne_nil (ht : t.Proper) : t.text ≠ [] := by
  cases t with
  | word letters => exact ht.1
  | ampersands count =>
    obtain ⟨count, rfl⟩ := Nat.exists_eq_add_of_le' ht
    exact List.cons_ne_nil _ _
  | _ => exact List.cons_ne_nil _ _

theorem solid_text (ht : t.Proper) : Solid t.text where
  head := by
    cases hhead : t.text.head? with
    | none => rfl
    | some c => exact (printable_of_mem_text ht (List.mem_of_head? hhead)).blank
  last := by
    cases hlast : t.text.getLast? with
    | none => rfl
    | some c => exact (printable_of_mem_text ht (List.mem_of_getLast? hlast)).blank

theorem join_cons_cons (t s : Token) (ts : List Token) :
    join (t :: s :: ts) = t.text ++ ' ' :: join (s :: ts) := rfl

theorem join_ne_nil (h : Tidy ts) (hne : ts ≠ []) : join ts ≠ [] := by
  cases h with
  | nil => exact absurd rfl hne
  | @cons t ts ht _ _ =>
    cases ts with
    | nil => exact text_ne_nil ht
    | cons s ts => exact List.append_ne_nil_of_left_ne_nil (text_ne_nil ht) _

theorem solid_join (h : Tidy ts) : Solid (join ts) := by
  induction h with
  | nil => exact ⟨rfl, rfl⟩
  | @cons t ts ht _ hts ih =>
    cases ts with
    | nil => exact solid_text ht
    | cons s ts =>
      constructor
      · rw [join_cons_cons, List.head?_append_of_ne_nil _ (text_ne_nil ht)]
        exact (solid_text ht).head
      · rw [join_cons_cons, List.getLast?_append_of_ne_nil _ (List.cons_ne_nil _ _),
          List.getLast?_cons_of_ne_nil (join_ne_nil hts (List.cons_ne_nil s ts))]
        exact ih.last

theorem Tidy.proper (h : Tidy ts) : ∀ t ∈ ts, t.Proper := by
  induction h with
  | nil => exact List.forall_mem_nil _
  | cons ht _ _ ih => exact List.forall_mem_cons.2 ⟨ht, ih⟩

theorem exists_of_mem_join (hc : c ∈ join ts) : c = ' ' ∨ ∃ t ∈ ts, c ∈ t.text := by
  induction ts with
  | nil => cases hc
  | cons t ts ih =>
    cases ts with
    | nil => exact .inr ⟨t, List.mem_singleton_self t, hc⟩
    | cons s ts =>
      rcases List.mem_append.1 hc with hc | hc
      · exact .inr ⟨t, List.mem_cons_self, hc⟩
      · rcases List.mem_cons.1 hc with rfl | hc
        · exact .inl rfl
        · exact (ih hc).imp_right fun ⟨t, ht, hc⟩ => ⟨t, List.mem_cons_of_mem _ ht, hc⟩

theorem mem_join (h : Tidy ts) (hc : c ∈ join ts) : c = ' ' ∨ Printable c :=
  (exists_of_mem_join hc).imp_right fun ⟨t, ht, hc⟩ => printable_of_mem_text (h.proper t ht) hc

theorem mem_join_of_mem (ht : t ∈ ts) (hc : c ∈ t.text) : c ∈ join ts := by
  induction ts with
  | nil => cases ht
  | cons s ts ih =>
    cases ts with
    | nil =>
      rw [List.mem_singleton.1 ht] at hc
      exact hc
    | cons u ts =>
      rcases List.mem_cons.1 ht with rfl | ht
      · exact List.mem_append_left _ hc
      · exact List.mem_append_right _ (List.mem_cons_of_mem _ (ih ht))

end Token

/-- How the text of a condition is spelled that has been read: it has no blanks but spaces, and
those inside, no colon, and a character that is neither a letter nor a digit. -/
structure Spelled (cs : List Char) : Prop where
  solid : Solid cs
  printable : ∀ c ∈ cs, c = ' ' ∨ Printable c
  sign : ∃ c ∈ cs, isAsciiLetter c = false ∧ isAsciiDigit c = false

variable {scope : Scope} {text : String} {parsed : Parsed}

theorem spelled_text (h : result (parse scope text) = .ok parsed) :
    Spelled parsed.text.toList := by
  obtain ⟨ts, htokens, hconditions, htext⟩ := parse_eq_ok.1 h
  have htidy := Token.tidy_ofText htokens
  rw [htext, String.toList_ofList]
  refine ⟨Token.solid_join htidy, fun c hc => Token.mem_join htidy hc, ?_⟩
  obtain ⟨t, ht, hcompare⟩ := List.any_eq_true.1 (any_isCompare_of_ofTokens hconditions)
  cases t with
  | compare comparison =>
    refine ⟨comparison.symbol, Token.mem_join_of_mem ht (List.mem_singleton.2 rfl), ?_⟩
    cases comparison <;> exact ⟨by decide, by decide⟩
  | _ => cases hcompare

/-- What is shown of a text that has been read is read as the text was. -/
theorem parse_shown (h : result (parse scope text) = .ok parsed) :
    result (parse scope parsed.text) = .ok parsed := by
  obtain ⟨ts, htokens, hconditions, htext⟩ := parse_eq_ok.1 h
  refine parse_eq_ok.2 ⟨ts, ?_, hconditions, htext⟩
  rw [htext, String.toList_ofList]
  exact Token.ofText_join (Token.tidy_ofText htokens) 0

variable {cs : List Char}

theorem Spelled.isLine (h : Spelled cs) : IsLine cs where
  newline := by
    intro hc
    obtain hspace | hprintable := h.printable _ hc
    · exact absurd hspace (by decide)
    · exact absurd hprintable.blank (by decide)
  last := by
    intro hlast
    have hblank := h.solid.last
    rw [hlast] at hblank
    exact absurd hblank (by decide)

theorem Spelled.colon_not_mem (h : Spelled cs) : ':' ∉ cs := by
  intro hc
  obtain hspace | hprintable := h.printable _ hc
  · exact absurd hspace (by decide)
  · exact hprintable.colon rfl

theorem Spelled.ne_all (h : Spelled cs) : cs ≠ "all".toList := by
  rintro rfl
  obtain ⟨c, hc, hletter, -⟩ := h.sign
  have hall : "all".toList.all isAsciiLetter = true := by decide
  exact absurd (List.all_eq_true.1 hall c hc) (Bool.eq_false_iff.1 hletter)

theorem Spelled.not_all_digits (h : Spelled cs) : cs.all isAsciiDigit = false := by
  obtain ⟨c, hc, -, hdigit⟩ := h.sign
  exact List.all_eq_false.2 ⟨c, hc, Bool.eq_false_iff.1 hdigit⟩

end Monitor.Condition

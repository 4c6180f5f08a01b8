import Mathlib.Data.List.TakeWhile
import Monitor.Text.Split

namespace Monitor.Text

variable {c mark : Char} {cs line : List Char} {lines : List (List Char)} {p : Char → Bool}

/-- A text with no blank at either end. -/
structure Solid (cs : List Char) : Prop where
  head : cs.head?.any isBlank = false
  last : cs.getLast?.any isBlank = false

theorem solid_of_forall (h : ∀ c ∈ cs, isBlank c = false) : Solid cs where
  head := by
    cases cs with
    | nil => rfl
    | cons c cs => exact h c List.mem_cons_self
  last := by
    cases hlast : cs.getLast? with
    | none => rfl
    | some c => exact h c (List.mem_of_getLast? hlast)

theorem trimLeft_of_head (h : cs.head?.any isBlank = false) : trimLeft cs = cs := by
  cases cs with
  | nil => rfl
  | cons c cs => exact List.dropWhile_cons_of_neg (Bool.eq_false_iff.1 h)

theorem Solid.trim_eq (h : Solid cs) : trim cs = cs := by
  have hlast : cs.reverse.head?.any isBlank = false := by
    rw [List.head?_reverse]
    exact h.last
  have hreverse : cs.reverse.dropWhile isBlank = cs.reverse := trimLeft_of_head hlast
  rw [trim, trimLeft_of_head h.head, trimRight, hreverse, List.reverse_reverse]

theorem trimRight_isPrefix (cs : List Char) : trimRight cs <+: cs := by
  have hreverse : (cs.reverse.dropWhile isBlank).reverse <+: cs.reverse.reverse :=
    List.reverse_prefix.2 (List.dropWhile_suffix isBlank)
  rwa [List.reverse_reverse] at hreverse

theorem trim_isInfix (cs : List Char) : trim cs <:+: cs :=
  (trimRight_isPrefix _).isInfix.trans (List.dropWhile_suffix isBlank).isInfix

theorem any_isBlank_head?_dropWhile (cs : List Char) :
    (cs.dropWhile isBlank).head?.any isBlank = false := by
  have hnot := List.head?_dropWhile_not isBlank cs
  cases hhead : (cs.dropWhile isBlank).head? with
  | none => rfl
  | some c =>
    rw [hhead] at hnot
    exact hnot

theorem solid_trim (cs : List Char) : Solid (trim cs) where
  head := by
    have hleft : (trimLeft cs).head?.any isBlank = false := any_isBlank_head?_dropWhile cs
    obtain ⟨back, hback⟩ := trimRight_isPrefix (trimLeft cs)
    rw [trim]
    cases hfront : trimRight (trimLeft cs) with
    | nil => rfl
    | cons c front =>
      rw [hfront] at hback
      rw [← hback] at hleft
      exact hleft
  last := by
    rw [trim, trimRight, List.getLast?_reverse]
    exact any_isBlank_head?_dropWhile _

theorem isBlank_of_trim_eq_nil (h : trim cs = []) : ∀ c ∈ cs, isBlank c = true := by
  have hright : (trimLeft cs).reverse.dropWhile isBlank = [] := List.reverse_eq_nil_iff.1 h
  have hblank : ∀ c ∈ trimLeft cs, isBlank c = true := fun c hc =>
    List.dropWhile_eq_nil_iff.1 hright c (List.mem_reverse.2 hc)
  have hhead : (trimLeft cs).head?.any isBlank = false := any_isBlank_head?_dropWhile cs
  cases hleft : trimLeft cs with
  | nil => exact List.dropWhile_eq_nil_iff.1 hleft
  | cons c back =>
    rw [hleft] at hblank hhead
    cases (hblank c List.mem_cons_self).symm.trans hhead

theorem trim_cons_blank (h : isBlank c = true) (cs : List Char) : trim (c :: cs) = trim cs := by
  rw [trim, trim, trimLeft, trimLeft, List.dropWhile_cons_of_pos h]

theorem splitFirst_of_not_mem (h : mark ∉ cs) : splitFirst mark cs = none := by
  induction cs with
  | nil => rfl
  | cons c cs ih =>
    rw [splitFirst, if_neg (Ne.symm (List.ne_of_not_mem_cons h)),
      ih (List.not_mem_of_not_mem_cons h)]
    rfl

theorem splitFirst_append_cons (h : mark ∉ line) (cs : List Char) :
    splitFirst mark (line ++ mark :: cs) = some (line, cs) := by
  induction line with
  | nil => exact if_pos rfl
  | cons c line ih =>
    rw [List.cons_append, splitFirst, if_neg (Ne.symm (List.ne_of_not_mem_cons h)),
      ih (List.not_mem_of_not_mem_cons h)]
    rfl

theorem splitWhere_append_cons (hline : ∀ d ∈ line, p d = false) (hc : p c = true)
    (cs : List Char) : splitWhere p (line ++ c :: cs) = line :: splitWhere p cs := by
  induction line with
  | nil => rw [List.nil_append, splitWhere, if_pos hc]
  | cons d line ih =>
    obtain ⟨hd, hline⟩ := List.forall_mem_cons.1 hline
    rw [List.cons_append, splitWhere, hd, ih hline]
    rfl

/-- A line that can be told from what follows it by the end of the line. -/
structure IsLine (line : List Char) : Prop where
  newline : '\n' ∉ line
  last : line.getLast? ≠ some '\r'

theorem IsLine.append {front back : List Char} (hfront : IsLine front) (hback : IsLine back) :
    IsLine (front ++ back) where
  newline := List.not_mem_append hfront.newline hback.newline
  last := by
    rw [List.getLast?_append]
    cases h : back.getLast? with
    | none => exact hfront.last
    | some c =>
      rw [Option.some_or, ← h]
      exact hback.last

theorem splitWhere_newlines (h : ∀ line ∈ lines, IsLine line) :
    splitWhere (· == '\n') (lines.flatMap (· ++ ['\n'])) = lines ++ [[]] := by
  induction lines with
  | nil => rfl
  | cons line lines ih =>
    obtain ⟨hline, hlines⟩ := List.forall_mem_cons.1 h
    have hplain : ∀ d ∈ line, (d == '\n') = false := by
      intro d hd
      exact beq_eq_false_iff_ne.2 fun heq => hline.newline (heq ▸ hd)
    rw [List.flatMap_cons, List.append_assoc, List.singleton_append,
      splitWhere_append_cons hplain rfl, ih hlines]
    rfl

theorem closeLines_append (h : ∀ line ∈ lines, IsLine line) :
    closeLines (lines ++ [[]]) = lines := by
  induction lines with
  | nil => rfl
  | cons line lines ih =>
    obtain ⟨hline, hlines⟩ := List.forall_mem_cons.1 h
    have hdrop : dropReturn line = line := if_neg hline.last
    cases lines with
    | nil =>
      rw [List.singleton_append, closeLines, hdrop]
      · rfl
      · exact List.cons_ne_nil _ _
    | cons next more =>
      rw [List.cons_append, List.cons_append, closeLines, hdrop, ← List.cons_append, ih hlines]
      exact nofun

theorem lines_flatMap (h : ∀ line ∈ lines, IsLine line) :
    Text.lines (lines.flatMap (· ++ ['\n'])) = lines := by
  rw [Text.lines, splitWhere_newlines h, closeLines_append h]

end Monitor.Text

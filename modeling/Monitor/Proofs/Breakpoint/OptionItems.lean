import Monitor.Breakpoint.OptionText
import Monitor.Proofs.Text

namespace Monitor.Breakpoint

open Text

variable {c : Char} {cs front item first : List Char} {more : List (List Char)}

def Whole (item : List Char) : Prop :=
  ¬[' ', ':'] <:+: item

theorem Whole.of_infix (h : Whole item) (hpart : front <:+: item) : Whole front :=
  fun hsplit => h (hsplit.trans hpart)

theorem whole_cons_iff :
    Whole (c :: cs) ↔ (c = ' ' → cs.head? ≠ some ':') ∧ Whole cs := by
  rw [Whole, List.infix_cons_iff, not_or, List.cons_prefix_cons]
  refine and_congr_left fun _ => ?_
  rw [not_and]
  cases cs with
  | nil => simp
  | cons d cs => simp [eq_comm]

theorem whole_of_not_mem (h : ' ' ∉ item) : Whole item :=
  fun hsplit => h (hsplit.subset List.mem_cons_self)

theorem whole_append (h : ' ' ∉ front) (hcs : Whole cs) : Whole (front ++ cs) := by
  induction front with
  | nil => exact hcs
  | cons c front ih =>
    refine whole_cons_iff.2 ⟨?_, ih (List.not_mem_of_not_mem_cons h)⟩
    rintro rfl
    exact absurd List.mem_cons_self h

structure IsItem (item : List Char) : Prop where
  solid : Solid item
  whole : Whole item

theorem Whole.isItem_trim (h : Whole item) : IsItem (trim item) :=
  ⟨solid_trim item, h.of_infix (trim_isInfix item)⟩

theorem optionItems_cons (h : c = ' ' → cs.head? ≠ some ':') :
    optionItems (c :: cs) = consFirst c (optionItems cs) := by
  rw [optionItems]
  rintro more rfl rfl
  exact h rfl rfl

theorem optionItems_of_whole (h : Whole item) : optionItems item = [item] := by
  induction item with
  | nil => rfl
  | cons c cs ih =>
    obtain ⟨hhead, htail⟩ := whole_cons_iff.1 h
    rw [optionItems_cons hhead, ih htail]
    rfl

theorem optionItems_append (h : Whole item) (cs : List Char) :
    optionItems (item ++ ' ' :: ':' :: cs) = item :: optionItems cs := by
  induction item with
  | nil => rfl
  | cons c front ih =>
    obtain ⟨hhead, htail⟩ := whole_cons_iff.1 h
    rw [List.cons_append, optionItems_cons, ih htail]
    · rfl
    · intro hc
      cases front with
      | nil =>
        change some ' ' ≠ some ':'
        decide
      | cons d front => exact hhead hc

/-- Items are read back from the text that puts a space and a colon between them. -/
theorem optionItems_flatMap (hfirst : Whole first) (hmore : ∀ item ∈ more, Whole item) :
    optionItems (first ++ more.flatMap fun item => ' ' :: ':' :: item) = first :: more := by
  induction more generalizing first with
  | nil => rw [List.flatMap_nil, List.append_nil, optionItems_of_whole hfirst]
  | cons item more ih =>
    obtain ⟨hitem, hmore⟩ := List.forall_mem_cons.1 hmore
    rw [List.flatMap_cons, List.cons_append, List.cons_append, optionItems_append hfirst,
      ih hitem hmore]

theorem exists_optionItems (cs : List Char) : ∃ first more, optionItems cs = first :: more ∧
    first <+: cs ∧ Whole first ∧ ∀ item ∈ more, Whole item := by
  induction cs using optionItems.induct with
  | case1 =>
    refine ⟨[], [], rfl, List.prefix_rfl, ?_, List.forall_mem_nil _⟩
    exact whole_of_not_mem List.not_mem_nil
  | case2 cs ih =>
    obtain ⟨first, more, heq, _, hfirst, hmore⟩ := ih
    refine ⟨[], first :: more, ?_, List.nil_prefix, whole_of_not_mem List.not_mem_nil, ?_⟩
    · rw [optionItems, heq]
    · exact List.forall_mem_cons.2 ⟨hfirst, hmore⟩
  | case3 c cs hnot ih =>
    obtain ⟨first, more, heq, hprefix, hfirst, hmore⟩ := ih
    have hhead : c = ' ' → first.head? ≠ some ':' := by
      rintro rfl hcolon
      obtain ⟨back, rfl⟩ := hprefix
      cases first with
      | nil => cases hcolon
      | cons d front =>
        cases hcolon
        exact hnot (front ++ back) rfl rfl
    refine ⟨c :: first, more, ?_, List.cons_prefix_cons.2 ⟨rfl, hprefix⟩,
      whole_cons_iff.2 ⟨hhead, hfirst⟩, hmore⟩
    rw [optionItems, heq]
    · rfl
    · exact hnot

end Monitor.Breakpoint

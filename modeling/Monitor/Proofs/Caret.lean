import Monitor.Proofs.Expression.Naming
import Monitor.Text.Caret

namespace Monitor.Text

/-- A character of one byte, which also takes one column. -/
def IsAscii (c : Char) : Prop :=
  c.toNat < 128

instance (c : Char) : Decidable (IsAscii c) :=
  inferInstanceAs (Decidable (c.toNat < 128))

variable {c : Char} {cs before after : List Char} {offset : Nat}

theorem utf8Size_of_isAscii (h : IsAscii c) : c.utf8Size = 1 :=
  Char.utf8Size_eq_one_iff.2 (UInt32.le_iff_toNat_le.2 (Nat.le_of_lt_succ h))

theorem isAscii_of_all (h : cs.all (fun c => decide (IsAscii c)) = true) : ∀ c ∈ cs, IsAscii c :=
  fun c hc => of_decide_eq_true (List.all_eq_true.1 h c hc)

theorem size_append (front back : List Char) : size (front ++ back) = size front + size back := by
  induction front with
  | nil => exact (Nat.zero_add _).symm
  | cons c front ih => rw [List.cons_append, size, size, ih, Nat.add_assoc]

theorem size_of_isAscii (h : ∀ c ∈ cs, IsAscii c) : size cs = cs.length := by
  induction cs with
  | nil => rfl
  | cons c cs ih =>
    obtain ⟨hc, hcs⟩ := List.forall_mem_cons.1 h
    rw [size, utf8Size_of_isAscii hc, ih hcs, List.length_cons, Nat.add_comm]

/-- An offset leads to a character of a text, or to its end, past nothing but characters of one
byte. -/
def Points (cs : List Char) (offset : Nat) : Prop :=
  ∃ before after, cs = before ++ after ∧ size before = offset ∧ ∀ c ∈ before, IsAscii c

theorem Points.le_size (h : Points cs offset) : offset ≤ size cs := by
  obtain ⟨before, after, rfl, rfl, -⟩ := h
  rw [size_append]
  exact Nat.le_add_right _ _

theorem points_of_le (h : ∀ c ∈ cs, IsAscii c) (hle : offset ≤ size cs) : Points cs offset := by
  have htake : ∀ c ∈ cs.take offset, IsAscii c := fun c hc => h c (List.mem_of_mem_take hc)
  refine ⟨cs.take offset, cs.drop offset, (List.take_append_drop offset cs).symm, ?_, htake⟩
  rw [size_of_isAscii h] at hle
  rw [size_of_isAscii htake, List.length_take, Nat.min_eq_left hle]

/-- A text is shown in quotes, and a caret below one of its characters: there is a space below the
quote and one below each character before. -/
def Marks (text : String) (offset : Nat) (heading message report : String) : Prop :=
  ∃ before after, text.toList = before ++ after ∧ size before = offset ∧
    (∀ c ∈ before, IsAscii c) ∧
    report = s!"ERROR in {heading}:\n'{text}'\n" ++ repeated (1 + before.length) ' ' ++
      s!"^-{message}\n"

theorem Points.marks {text : String} (h : Points text.toList offset) (heading message : String) :
    Marks text offset heading message (caretDiagram heading text offset message) := by
  obtain ⟨before, after, hsplit, rfl, hascii⟩ := h
  refine ⟨before, after, hsplit, rfl, hascii, ?_⟩
  rw [caretDiagram, size_of_isAscii hascii, Nat.add_comm 1]
  simp only [toString, String.append_assoc]

theorem isAscii_of_isAsciiDigit (h : isAsciiDigit c = true) : IsAscii c := by
  have hrange := isAsciiDigit_iff.1 h
  rw [IsAscii]
  omega

theorem isAscii_of_isAsciiLetter (h : isAsciiLetter c = true) : IsAscii c := by
  have hrange := isAsciiLetter_iff.1 h
  rw [IsAscii]
  omega

theorem isAscii_of_isDigit {radix : Nat} (h : isDigit radix c = true) : IsAscii c := by
  rw [isDigit, digit?, Option.isSome_filter, digitValue?] at h
  split at h
  · rename_i hdigit
    exact isAscii_of_isAsciiDigit hdigit
  · refine isAscii_of_isAsciiLetter ?_
    rw [isAsciiLetter]
    split at h
    · rename_i hlower
      simp [hlower]
    · split at h
      · rename_i hupper
        simp [hupper]
      · cases h

end Monitor.Text

import Monitor.Proofs.Numeral.Writing

namespace Monitor.Numeral

open Text

/-- What may stand before the digits of a number to say its radix. -/
inductive Mark
  | plain
  | percent
  | zeroB
  | zeroO
  | hash
  | zeroD
  | dollar
  | zeroX
  | zeroH
  deriving DecidableEq, Repr

namespace Mark

def text : Mark → List Char
  | .plain => []
  | .percent => ['%']
  | .zeroB => ['0', 'b']
  | .zeroO => ['0', 'o']
  | .hash => ['#']
  | .zeroD => ['0', 'd']
  | .dollar => ['$']
  | .zeroX => ['0', 'x']
  | .zeroH => ['0', 'h']

def radix (default : Radix) : Mark → Radix
  | .plain => default
  | .percent | .zeroB => .binary
  | .zeroO => .octal
  | .hash | .zeroD => .decimal
  | .dollar | .zeroX | .zeroH => .hexadecimal

end Mark

def BeginsMarked (cs : List Char) : Prop :=
  ∃ letter ∈ ['b', 'o', 'd', 'h', 'x'], ['0', letter] <+: cs

def EndsDigits (radix : Nat) (cs : List Char) : Prop :=
  ∀ c, cs.head? = some c → ¬IsDigitOf radix c

/-- A text is read as a number that takes up `length` bytes and leaves `rest`. The number has to fit
into 32 bits, and nothing may be left where it is to be the whole text. -/
structure Decodes (default : Nat) (cs : List Char) (length radix n : Nat) (rest : List Char) :
    Prop where
  fits : n < 0x100000000 → ∃ value : UInt32, value.toNat = n ∧
    readFront default cs = .ok ⟨value, length, radix⟩ ∧
    read default cs =
      if rest = [] then .ok value else .error (.trailing radix (String.ofList cs))
  overflows : 0x100000000 ≤ n →
    readFront default cs = .error (.overflow (String.ofList cs)) ∧
    read default cs = .error (.overflow (String.ofList cs))

variable {default : Radix} {mark : Mark} {radix n length : Nat} {cs digits rest : List Char}
  {c : Char}

theorem toNat_radix (r : Radix) : 1 < r.toNat ∧ r.toNat ≤ 16 := by
  cases r <;> decide

theorem isAscii_of_mem_text : ∀ c ∈ mark.text, IsAscii c := by
  cases mark <;> exact isAscii_of_all rfl

theorem marker?_text (hmark : mark ≠ .plain) (cs : List Char) :
    marker? n (mark.text ++ cs) = some ((mark.radix default).toNat, mark.text.length) := by
  cases mark with
  | plain => exact absurd rfl hmark
  | _ => rfl

theorem marker?_plain (hc : isDigit 16 c = true) (h : ¬BeginsMarked (c :: cs)) :
    marker? n (c :: cs) = some (n, 0) := by
  have hmarked : ∀ letter ∈ ['b', 'o', 'd', 'h', 'x'], ∀ more, c :: cs ≠ '0' :: letter :: more :=
    fun letter hletter more heq => h ⟨letter, hletter, more, heq.symm⟩
  unfold marker?
  split
  all_goals rename_i heq
  case h_9 =>
    cases heq
    exact if_pos hc
  case h_10 => cases heq
  case h_6 | h_7 | h_8 =>
    cases heq
    exact absurd hc (by decide)
  all_goals exact absurd heq (hmarked _ (by decide) _)

theorem takeWhile_digits (hdigits : ∀ c ∈ digits, isDigit radix c = true) (hradix : radix ≤ 16)
    (hrest : EndsDigits radix rest) : (digits ++ rest).takeWhile (isDigit radix) = digits := by
  have hnone : rest.takeWhile (isDigit radix) = [] := by
    cases rest with
    | nil => rfl
    | cons c rest =>
      exact List.takeWhile_cons_of_neg fun hc => hrest c rfl ((isDigit_iff hradix).1 hc)
  rw [List.takeWhile_append_of_pos hdigits, hnone, List.append_nil]

theorem endsDigits_dropWhile (hradix : radix ≤ 16) (cs : List Char) :
    EndsDigits radix (cs.dropWhile (isDigit radix)) := by
  intro c hc hdigit
  have hnot := List.head?_dropWhile_not (isDigit radix) cs
  rw [hc] at hnot
  exact Bool.false_ne_true (hnot.symm.trans ((isDigit_iff hradix).2 hdigit))

theorem readFront_of_marker? (hmarker : marker? n cs = some (radix, length)) (hradix : radix ≤ 16)
    (hdrop : cs.drop length = digits ++ rest) (hdigits : ∀ c ∈ digits, isDigit radix c = true)
    (hrest : EndsDigits radix rest) :
    readFront n cs =
      if digits = [] then .error (.noDigits (String.ofList cs))
      else if UInt32.size ≤ ofDigits radix digits then .error (.overflow (String.ofList cs))
      else .ok ⟨.ofNat (ofDigits radix digits), length + digits.length, radix⟩ := by
  have hne : cs.isEmpty = false := by
    cases cs with
    | nil => cases hmarker
    | cons c cs => rfl
  rw [readFront, hne, hmarker]
  dsimp only
  rw [hdrop, takeWhile_digits hdigits hradix hrest]
  simp only [List.isEmpty_iff, Bool.false_eq_true, ↓reduceIte]

theorem decodes_of_marker? (hone : 1 < radix) (hradix : radix ≤ 16)
    (hmarker : marker? length (mark.text ++ digits ++ rest) = some (radix, mark.text.length))
    (hwrites : Writes radix n digits) (hrest : EndsDigits radix rest) :
    Decodes length (mark.text ++ digits ++ rest) (size (mark.text ++ digits)) radix n rest := by
  have hdigits := hwrites.isDigit hone hradix
  have hsize : size (mark.text ++ digits) = mark.text.length + digits.length := by
    rw [size_of_isAscii, List.length_append]
    intro c hc
    rcases List.mem_append.1 hc with hc | hc
    · exact isAscii_of_mem_text c hc
    · exact isAscii_of_isDigit (hdigits c hc)
  have hdrop : (mark.text ++ digits ++ rest).drop mark.text.length = digits ++ rest := by
    rw [List.append_assoc, List.drop_left]
  have hfront := readFront_of_marker? hmarker hradix hdrop hdigits hrest
  rw [if_neg hwrites.ne_nil, hwrites.ofDigits_eq hone hradix, ← hsize] at hfront
  constructor
  · intro hn
    have hfit : ¬UInt32.size ≤ n := Nat.not_le.2 hn
    rw [if_neg hfit] at hfront
    refine ⟨.ofNat n, UInt32.toNat_ofNat_of_lt' hn, hfront, ?_⟩
    rw [read, hfront]
    dsimp only
    rw [hsize]
    cases rest with
    | nil => simp
    | cons c rest => simp
  · intro hn
    rw [if_pos hn] at hfront
    refine ⟨hfront, ?_⟩
    rw [read, hfront]

/-- A text that begins like a number with a letter for its radix is read in that radix, whether
there are digits behind the letter or not. -/
inductive IsReadMarked (default : Radix) (cs : List Char) : Prop
  | number {mark : Mark} {n : Nat} {digits rest : List Char} (hmark : mark ≠ .plain)
    (hcs : cs = mark.text ++ digits ++ rest)
    (hwrites : Writes (mark.radix default).toNat n digits)
    (hrest : EndsDigits (mark.radix default).toNat rest)
    (hdecodes : Decodes default.toNat cs (size (mark.text ++ digits)) (mark.radix default).toNat n
      rest)
  | noDigits {mark : Mark} {rest : List Char} (hmark : mark ≠ .plain) (hcs : cs = mark.text ++ rest)
    (hrest : EndsDigits (mark.radix default).toNat rest)
    (hfront : readFront default.toNat cs = .error (.noDigits (String.ofList cs)))
    (hread : read default.toNat cs = .error (.noDigits (String.ofList cs)))

theorem exists_mark (h : BeginsMarked cs) :
    ∃ (mark : Mark) (rest : List Char), mark ≠ .plain ∧ cs = mark.text ++ rest := by
  obtain ⟨letter, hletter, rest, rfl⟩ := h
  simp only [List.mem_cons, List.not_mem_nil, or_false] at hletter
  obtain rfl | rfl | rfl | rfl | rfl := hletter
  · exact ⟨.zeroB, rest, by decide, rfl⟩
  · exact ⟨.zeroO, rest, by decide, rfl⟩
  · exact ⟨.zeroD, rest, by decide, rfl⟩
  · exact ⟨.zeroH, rest, by decide, rfl⟩
  · exact ⟨.zeroX, rest, by decide, rfl⟩

theorem isReadMarked (default : Radix) (h : BeginsMarked cs) : IsReadMarked default cs := by
  obtain ⟨mark, more, hmark, rfl⟩ := exists_mark h
  obtain ⟨hone, hradix⟩ := toNat_radix (mark.radix default)
  have hmarker : marker? default.toNat (mark.text ++ more) =
      some ((mark.radix default).toNat, mark.text.length) := marker?_text hmark more
  have hdigits : ∀ c ∈ more.takeWhile (isDigit (mark.radix default).toNat),
      isDigit (mark.radix default).toNat c = true := fun c hc => List.mem_takeWhile_imp hc
  have hrest := endsDigits_dropWhile hradix more
  have hsplit : more.takeWhile (isDigit (mark.radix default).toNat) ++
      more.dropWhile (isDigit (mark.radix default).toNat) = more :=
    List.takeWhile_append_dropWhile
  by_cases hne : more.takeWhile (isDigit (mark.radix default).toNat) = []
  · rw [hne, List.nil_append] at hsplit
    have hdrop : (mark.text ++ more).drop mark.text.length = [] ++ more := List.drop_left
    have hfront := readFront_of_marker? hmarker hradix hdrop (List.forall_mem_nil _)
      (hsplit ▸ hrest)
    refine .noDigits hmark rfl (hsplit ▸ hrest) hfront ?_
    rw [read, hfront]
    rfl
  · have hwrites := writes_ofDigits hone hradix hne hdigits
    have hcs : mark.text ++ more =
        mark.text ++ more.takeWhile (isDigit (mark.radix default).toNat) ++
          more.dropWhile (isDigit (mark.radix default).toNat) := by
      rw [List.append_assoc, hsplit]
    refine .number hmark hcs hwrites hrest ?_
    rw [hcs] at hmarker ⊢
    exact decodes_of_marker? hone hradix hmarker hwrites hrest

/-- A number is read from the digits that write it in the radix of its mark, with all of them and
nothing of what follows, and is refused just if it does not fit. Only a number without a mark may be
taken for one with a letter for its radix, and is then read as that. -/
theorem decodes_literal (default : Radix) (mark : Mark)
    (hwrites : Writes (mark.radix default).toNat n digits)
    (hrest : EndsDigits (mark.radix default).toNat rest) :
    ((mark = .plain → ¬BeginsMarked (digits ++ rest)) →
      Decodes default.toNat (mark.text ++ digits ++ rest) (size (mark.text ++ digits))
        (mark.radix default).toNat n rest) ∧
    (mark = .plain → BeginsMarked (digits ++ rest) → IsReadMarked default (digits ++ rest)) := by
  obtain ⟨hone, hradix⟩ := toNat_radix (mark.radix default)
  refine ⟨fun hplain => ?_, fun _ hbegins => isReadMarked default hbegins⟩
  refine decodes_of_marker? hone hradix ?_ hwrites hrest
  by_cases hmark : mark = .plain
  · subst hmark
    have hdigits := hwrites.isDigit hone hradix
    obtain ⟨c, more, rfl⟩ := List.exists_cons_of_ne_nil hwrites.ne_nil
    obtain ⟨d, hd, hc⟩ := (isDigit_iff hradix).1 (hdigits c List.mem_cons_self)
    exact marker?_plain ((isDigit_iff (by decide)).2 ⟨d, by omega, hc⟩) (hplain rfl)
  · rw [List.append_assoc]
    exact marker?_text hmark _

/-- Zeros in front and capitals make no difference, and a letter is no mark behind two zeros. -/
theorem decodes_literal_zeros :
    Writes 16 0xbeef "00bEeF".toList ∧ EndsDigits 16 "+1".toList ∧
      ¬BeginsMarked ("00bEeF".toList ++ "+1".toList) ∧
      Decodes 16 ("00bEeF".toList ++ "+1".toList) 6 16 0xbeef "+1".toList := by
  have hwrites : Writes 16 0xbeef "00bEeF".toList := ⟨2, by decide +kernel⟩
  have hrest : EndsDigits 16 "+1".toList := by
    rintro c ⟨⟩
    exact (isDigit_iff (by decide)).not.1 (by decide)
  have hplain : ¬BeginsMarked ("00bEeF".toList ++ "+1".toList) := by
    rintro ⟨letter, hletter, rest, heq⟩
    cases heq
    exact absurd hletter (by decide)
  exact ⟨hwrites, hrest, hplain,
    (decodes_literal .hexadecimal .plain hwrites hrest).1 fun _ => hplain⟩

end Monitor.Numeral

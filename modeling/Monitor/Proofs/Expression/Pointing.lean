import Monitor.Proofs.Caret
import Monitor.Proofs.Expression.Operands
import Monitor.Proofs.Expression.Soundness

namespace Monitor

open Attempt Text

variable {scope : Scope} {cs before : List Char} {n offset : Nat}

/-- So many characters stand at the front of a text, and each of them takes one byte. -/
structure Text.AsciiFront (cs : List Char) (n : Nat) : Prop where
  le : n ≤ cs.length
  ascii : ∀ c ∈ cs.take n, IsAscii c

theorem Text.asciiFront_takeWhile {p : Char → Bool} (h : ∀ c, p c = true → IsAscii c)
    (cs : List Char) : AsciiFront cs (cs.takeWhile p).length where
  le := (List.takeWhile_sublist p).length_le
  ascii := by
    intro c hc
    rw [← List.prefix_iff_eq_take.1 (List.takeWhile_prefix p)] at hc
    exact h c (List.mem_takeWhile_imp hc)

theorem Text.AsciiFront.add {k : Nat} (h : AsciiFront cs n) (hmore : AsciiFront (cs.drop n) k) :
    AsciiFront cs (n + k) where
  le := by
    have hle := hmore.le
    have hn := h.le
    rw [List.length_drop] at hle
    omega
  ascii := by
    intro c hc
    rw [List.take_add] at hc
    exact (List.mem_append.1 hc).elim (h.ascii c) (hmore.ascii c)

namespace Numeral

variable {radix : Nat}

theorem asciiFront_of_marker? {marked length : Nat}
    (h : marker? radix cs = some (marked, length)) : AsciiFront cs length := by
  refine ⟨length_of_marker? h, ?_⟩
  unfold marker? at h
  repeat' split at h
  all_goals cases h
  all_goals exact isAscii_of_all rfl

theorem asciiFront_of_readFront {r : Reading} (h : readFront radix cs = .ok r) :
    AsciiFront cs r.length := by
  rw [readFront] at h
  split at h
  · cases h
  · split at h
    · cases h
    · rename_i marked length hmarker
      dsimp only at h
      split at h
      · cases h
      · split at h
        · cases h
        · cases h
          exact (asciiFront_of_marker? hmarker).add
            (asciiFront_takeWhile (fun _ => isAscii_of_isDigit) _)

end Numeral

theorem isAscii_of_isNameChar {c : Char} (h : Operand.isNameChar c = true) : IsAscii c := by
  rw [Operand.isNameChar, Bool.or_eq_true, Bool.or_eq_true, beq_iff_eq] at h
  obtain (hletter | hdigit) | rfl := h
  · exact isAscii_of_isAsciiLetter hletter
  · exact isAscii_of_isAsciiDigit hdigit
  · decide

theorem Operand.asciiFront_of_readFront {r : Operand} (h : readFront scope cs = .ok r) :
    AsciiFront cs r.length := by
  rw [readFront] at h
  split at h
  · cases h
  · split at h
    · cases h
      exact asciiFront_takeWhile (fun _ => isAscii_of_isNameChar) cs
    · cases hnumber : Numeral.readFront scope.radix.toNat cs with
      | error e =>
        rw [hnumber] at h
        cases h
      | ok number =>
        rw [hnumber] at h
        cases h
        exact Numeral.asciiFront_of_readFront hnumber

namespace Expression

theorem isAscii_of_symbol? {t : Token} {s : List Char} (h : t.symbol? = some s) :
    ∀ c ∈ s, IsAscii c := by
  cases t with
  | operator op => cases op <;> cases h <;> exact isAscii_of_all rfl
  | complement | opening | closing => cases h; exact isAscii_of_all rfl
  | operand | unreadable => cases h

theorem asciiFront_of_front? {t : Token} (h : Token.front? scope cs = some (t, n)) :
    AsciiFront cs n := by
  obtain ⟨s, hs, rfl, hsplit⟩ | ⟨r, hr, rfl, rfl⟩ := front?_cases h
  · have htake : cs.take s.length = s := by
      rw [← hsplit, List.take_left]
    refine ⟨?_, fun c hc => isAscii_of_symbol? hs c ?_⟩
    · rw [← hsplit, List.length_append]
      exact Nat.le_add_right _ _
    · rwa [htake] at hc
  · exact Operand.asciiFront_of_readFront hr

/-- A token that is found in a text. It has a place between two characters, past nothing but
characters of one byte; so has its end. -/
def Found (scope : Scope) (cs : List Char) (t : Placed) : Prop :=
  ∃ before after, cs = before ++ after ∧ size before = t.offset ∧ (∀ c ∈ before, IsAscii c) ∧
    ((∃ n, Token.front? scope after = some (t.token, n) ∧ 0 < n ∧ AsciiFront after n) ∨
      Token.front? scope after = none ∧ t.token = .unreadable)

theorem Found.points {t : Placed} (h : Found scope cs t) : Points cs t.offset := by
  obtain ⟨before, after, hsplit, hsize, hascii, -⟩ := h
  exact ⟨before, after, hsplit, hsize, hascii⟩

theorem isAscii_of_blank {c : Char} (h : c = ' ' ∨ c = '\t') : IsAscii c := by
  obtain rfl | rfl := h <;> decide

theorem found_of_mem_tokens (hbefore : ∀ c ∈ before, IsAscii c) (hsize : size before = offset) :
    ∀ t ∈ tokens scope offset cs, Found scope (before ++ cs) t := by
  fun_induction tokens scope offset cs generalizing before with
  | case1 => exact List.forall_mem_nil _
  | case2 offset c cs hblank ih =>
    have hc := isAscii_of_blank hblank
    rw [List.append_cons]
    refine ih (List.forall_mem_append.2 ⟨hbefore, List.forall_mem_singleton.2 hc⟩) ?_
    rw [size_append, hsize, size, utf8Size_of_isAscii hc, size]
  | case3 offset c cs hblank hfront =>
    intro t ht
    rw [List.mem_singleton.1 ht]
    exact ⟨before, c :: cs, rfl, hsize, hbefore, .inr ⟨hfront, rfl⟩⟩
  | case4 offset c cs hblank token length hfront ih =>
    have htaken := asciiFront_of_front? hfront
    have hsplit : before ++ c :: cs =
        (before ++ (c :: cs).take length) ++ (c :: cs).drop length := by
      rw [List.append_assoc, List.take_append_drop]
    rw [List.forall_mem_cons]
    refine ⟨⟨before, c :: cs, rfl, hsize, hbefore, .inl
      ⟨length, hfront, Token.front?_length_pos hfront, htaken⟩⟩, ?_⟩
    rw [hsplit]
    refine ih (List.forall_mem_append.2 ⟨hbefore, htaken.ascii⟩) ?_
    rw [size_append, hsize, size_of_isAscii htaken.ascii, List.length_take,
      Nat.min_eq_left htaken.le]

theorem found_tokens : ∀ t ∈ tokens scope 0 cs, Found scope cs t :=
  found_of_mem_tokens (List.forall_mem_nil _) rfl

theorem pairwise_tokens (scope : Scope) (offset : Nat) (cs : List Char) :
    (∀ t ∈ tokens scope offset cs, offset ≤ t.offset) ∧
      (tokens scope offset cs).Pairwise (·.offset < ·.offset) := by
  fun_induction tokens scope offset cs with
  | case1 => exact ⟨List.forall_mem_nil _, .nil⟩
  | case2 offset c cs hblank ih =>
    exact ⟨fun t ht => Nat.le_of_succ_le (ih.1 t ht), ih.2⟩
  | case3 offset c cs hblank hfront =>
    refine ⟨fun t ht => ?_, List.pairwise_singleton _ _⟩
    rw [List.mem_singleton.1 ht]
  | case4 offset c cs hblank token length hfront ih =>
    have hpos := Token.front?_length_pos hfront
    have hlater : ∀ t ∈ tokens scope (offset + length) ((c :: cs).drop length),
        offset < t.offset := by
      intro t ht
      have hle := ih.1 t ht
      omega
    refine ⟨List.forall_mem_cons.2 ⟨Nat.le_refl _, fun t ht => Nat.le_of_lt (hlater t ht)⟩, ?_⟩
    exact List.pairwise_cons.2 ⟨hlater, ih.2⟩

theorem isAscii_of_readable (h : .unreadable ∉ (tokens scope offset cs).map Placed.token) :
    ∀ c ∈ cs, IsAscii c := by
  fun_induction tokens scope offset cs with
  | case1 => exact List.forall_mem_nil _
  | case2 offset c cs hblank ih => exact List.forall_mem_cons.2 ⟨isAscii_of_blank hblank, ih h⟩
  | case3 => exact absurd (List.mem_singleton_self _) h
  | case4 offset c cs hblank token length hfront ih =>
    rw [List.map_cons, List.mem_cons, not_or] at h
    rw [← List.take_append_drop length (c :: cs)]
    exact List.forall_mem_append.2 ⟨(asciiFront_of_front? hfront).ascii, ih h.2⟩

theorem offset_of_run {m : Machine} {p : Progress} {ts : List Placed} {f : Failure}
    (h : result (run m p ts) = .error f) : ∃ t ∈ ts, f.offset = t.offset := by
  induction ts generalizing p with
  | nil => cases h
  | cons t ts ih =>
    rw [run, result_bind, result_adapt] at h
    obtain hstep | ⟨q, -, hmore⟩ := bind_eq_error.1 h
    · cases hresult : result (step m p t.token) with
      | ok q =>
        rw [hresult] at hstep
        cases hstep
      | error e =>
        rw [hresult] at hstep
        cases hstep
        exact ⟨t, List.mem_cons_self, rfl⟩
    · obtain ⟨t', ht', hoffset⟩ := ih hmore
      exact ⟨t', List.mem_cons_of_mem _ ht', hoffset⟩

/-- An evaluation fails at one of its tokens, or at the end of a text that has been read. -/
theorem points_of_evaluate {text : String} {f : Failure}
    (h : result (evaluate scope text) = .error f) : Points text.toList f.offset := by
  rw [evaluate, result_bind] at h
  obtain hrun | ⟨p, hrun, hfinish⟩ := bind_eq_error.1 h
  · obtain ⟨t, ht, hoffset⟩ := offset_of_run hrun
    rw [hoffset]
    exact (found_tokens t ht).points
  · have hadvance := result_run (m := scope.machine) {} (tokens scope 0 text.toList)
    rw [hrun] at hadvance
    have hascii := isAscii_of_readable (readable_of_advance hadvance.symm)
    have hoffset : f.offset = size text.toList := by
      cases hvalue : finish p with
      | error e =>
        simp only [result_bind, result_adapt, ofExcept, result_mk, hvalue, mapError_error,
          error_bind] at hfinish
        cases hfinish
        rfl
      | ok value =>
        simp only [result_bind, result_adapt, ofExcept, result_mk, hvalue, mapError_ok, ok_bind,
          result_pure, reduceCtorEq] at hfinish
    rw [hoffset]
    exact points_of_le hascii (Nat.le_refl _)

end Expression

end Monitor

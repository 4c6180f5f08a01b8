import Mathlib.Data.List.Lex

namespace Monitor.Text

def bytes (s : String) : List UInt8 :=
  s.toByteArray.data.toList

variable {m n bound further : Nat} {code longer : Nat → List UInt8}

theorem bytes_eq_flatMap (s : String) : bytes s = s.toList.flatMap String.utf8EncodeChar := by
  rw [bytes, ← String.utf8Encode_toList, List.utf8Encode, List.toList_data_toByteArray]

theorem cons_lt_cons_of_lt (h : m % 256 < n % 256) (xs ys : List UInt8) :
    UInt8.ofNat m :: xs < UInt8.ofNat n :: ys := by
  refine List.cons_lt_cons_iff.2 (.inl ?_)
  rw [UInt8.lt_iff_toNat_lt, UInt8.toNat_ofNat', UInt8.toNat_ofNat']
  exact h

/-- The codes of the numbers below a bound have the order of the numbers, whatever follows them. -/
def Ordered (code : Nat → List UInt8) (bound : Nat) : Prop :=
  ∀ m n, m < n → n < bound → ∀ xs ys, code m ++ xs < code n ++ ys

theorem ordered_lead (count offset : Nat) (h : count + offset ≤ 256) :
    Ordered (fun n => [UInt8.ofNat (n % count + offset)]) count := by
  intro m n hlt hn xs ys
  refine cons_lt_cons_of_lt ?_ xs ys
  rw [Nat.mod_eq_of_lt hn, Nat.mod_eq_of_lt (hlt.trans hn)]
  omega

theorem Ordered.next (h : Ordered code bound) :
    Ordered (fun n => code (n / 64) ++ [UInt8.ofNat (n % 64 + 128)]) (bound * 64) := by
  intro m n hlt hn xs ys
  have hquotient : m / 64 ≤ n / 64 := Nat.div_le_div_right hlt.le
  simp only [List.append_assoc]
  rcases Nat.lt_or_eq_of_le hquotient with hless | hequal
  · exact h _ _ hless (Nat.div_lt_of_lt_mul (by omega)) _ _
  · rw [hequal]
    exact List.append_left_lt (cons_lt_cons_of_lt (by omega) xs ys)

theorem Ordered.extend (h : Ordered code bound) (hlonger : Ordered longer further)
    (hlater : ∀ m n, m < bound → bound ≤ n → n < further → ∀ xs ys,
      code m ++ xs < longer n ++ ys) :
    Ordered (fun n => if n < bound then code n else longer n) further := by
  intro m n hlt hn xs ys
  dsimp only
  by_cases hnshort : n < bound
  · rw [if_pos (hlt.trans hnshort), if_pos hnshort]
    exact h m n hlt hnshort xs ys
  · rw [if_neg hnshort]
    by_cases hmshort : m < bound
    · rw [if_pos hmshort]
      exact hlater m n hmshort (Nat.not_lt.1 hnshort) hn xs ys
    · rw [if_neg hmshort]
      exact hlonger m n hlt hn xs ys

def utf8 (n : Nat) : List UInt8 :=
  if n < 0x80 then [UInt8.ofNat (n % 0x80 + 0)]
  else if n < 0x800 then [UInt8.ofNat (n / 64 % 0x20 + 0xc0), UInt8.ofNat (n % 64 + 128)]
  else if n < 0x10000 then
    [UInt8.ofNat (n / 64 / 64 % 0x10 + 0xe0), UInt8.ofNat (n / 64 % 64 + 128),
      UInt8.ofNat (n % 64 + 128)]
  else
    [UInt8.ofNat (n / 64 / 64 / 64 % 8 + 0xf0), UInt8.ofNat (n / 64 / 64 % 64 + 128),
      UInt8.ofNat (n / 64 % 64 + 128), UInt8.ofNat (n % 64 + 128)]

theorem utf8EncodeChar_eq (c : Char) : String.utf8EncodeChar c = utf8 c.toNat := by
  have hsmall : c.toNat < 0x80 → c.toNat % 0x80 + 0 = c.toNat := Nat.mod_eq_of_lt
  simp only [String.utf8EncodeChar, utf8, Char.toNat_val, Nat.div_div_eq_div_mul,
    ← Nat.lt_succ_iff]
  split_ifs with h
  · rw [hsmall h]
  · rfl
  · rfl
  · rfl

theorem ordered_utf8 : Ordered utf8 0x200000 := by
  have hone := ordered_lead 0x80 0 (by decide)
  have htwo := (ordered_lead 0x20 0xc0 (by decide)).next
  have hthree := (ordered_lead 0x10 0xe0 (by decide)).next.next
  have hfour := (ordered_lead 8 0xf0 (by decide)).next.next.next
  refine hone.extend (htwo.extend (hthree.extend hfour ?_) ?_) ?_
  · intro m n hm _ _ xs ys
    exact cons_lt_cons_of_lt (by omega) _ _
  · intro m n hm _ _ xs ys
    split <;> exact cons_lt_cons_of_lt (by omega) _ _
  · intro m n hm _ _ xs ys
    split
    · exact cons_lt_cons_of_lt (by omega) _ _
    · split <;> exact cons_lt_cons_of_lt (by omega) _ _

theorem utf8EncodeChar_append_lt {c d : Char} (h : c < d) (xs ys : List UInt8) :
    String.utf8EncodeChar c ++ xs < String.utf8EncodeChar d ++ ys := by
  have hlt : c.toNat < d.toNat := h
  have hvalid : d.toNat < 0xd800 ∨ 0xdfff < d.toNat ∧ d.toNat < 0x110000 := d.valid
  rw [utf8EncodeChar_eq, utf8EncodeChar_eq]
  exact ordered_utf8 _ _ hlt (by omega) xs ys

theorem flatMap_utf8_lt {xs ys : List Char} (h : xs < ys) :
    xs.flatMap String.utf8EncodeChar < ys.flatMap String.utf8EncodeChar := by
  induction h with
  | @nil c ys =>
    rw [List.flatMap_nil, List.flatMap_cons]
    cases hc : String.utf8EncodeChar c with
    | nil => exact absurd hc String.utf8EncodeChar_ne_nil
    | cons b bs => exact List.nil_lt_cons _ _
  | cons h ih =>
    rw [List.flatMap_cons, List.flatMap_cons]
    exact List.append_left_lt ih
  | rel h =>
    rw [List.flatMap_cons, List.flatMap_cons]
    exact utf8EncodeChar_append_lt h _ _

theorem bytes_lt_of_lt {s t : String} (h : s < t) : bytes s < bytes t := by
  rw [bytes_eq_flatMap, bytes_eq_flatMap]
  exact flatMap_utf8_lt h

/-- Texts have the order of their bytes. -/
theorem bytes_le_iff {s t : String} : bytes s ≤ bytes t ↔ s ≤ t := by
  constructor
  · exact fun h hlt => h (bytes_lt_of_lt hlt)
  · intro h hlt
    by_cases hst : s < t
    · exact List.lt_asymm hlt (bytes_lt_of_lt hst)
    · rw [String.le_antisymm h (String.not_lt.1 hst)] at hlt
      exact List.lt_irrefl _ hlt

end Monitor.Text

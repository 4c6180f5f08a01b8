import Monitor.Condition.Settled
import Monitor.Proofs.Attempt

namespace Monitor.Condition

open Attempt

variable {scope : Scope} {index : Nat} {ts rest : List Token} {cursor next : Cursor}

/-- A word, or a word in parentheses with or without a modifier behind it. -/
inductive IsPlace : List Token → Prop
  | word (letters : List Char) : IsPlace [.word letters]
  | address (letters : List Char) : IsPlace [.opening, .word letters, .closing]
  | modified (letters modifier : List Char) :
    IsPlace [.opening, .word letters, .closing, .dot, .word modifier]

inductive IsSide : List Token → Prop
  | bare {ts : List Token} (h : IsPlace ts) : IsSide ts
  | masked {ts : List Token} (h : IsPlace ts) (letters : List Char) :
    IsSide (ts ++ [.mask, .word letters])

inductive IsComparison : List Token → Prop
  | intro {left right : List Token} (hleft : IsSide left) (comparison : Comparison)
      (hright : IsSide right) : IsComparison (left ++ .compare comparison :: right)

namespace Written

variable {w w' : Written} {indirect : Bool} {letters : List Char} {t : Token}

/-- What a word means: a name what it is the name of, any other word a number. -/
def meaning? (scope : Scope) (indirect : Bool) (letters : List Char) : Option Written :=
  if startsName letters then (ofName? scope indirect (String.ofList letters)).value
  else (Numeral.read scope.radix.toNat letters).toOption.map fun number =>
    plain scope indirect (.literal number)

def HasValidAddress (scope : Scope) (w : Written) : Prop :=
  ∀ address, w.source = .literal address → w.indirect = true → isValidAddress scope address = true

/-- A word stands for a side, which has memory at its address if that is fixed. -/
structure Denotes (scope : Scope) (indirect : Bool) (letters : List Char) (w : Written) : Prop where
  meaning : meaning? scope indirect letters = some w
  valid : w.HasValidAddress scope

theorem ofWord_eq_ok : result (ofWord scope indirect index letters) = .ok w ↔
    meaning? scope indirect letters = some w := by
  rw [ofWord, meaning?]
  split
  · rw [result_bind, result_lift, ok_bind]
    cases (ofName? scope indirect (String.ofList letters)).value <;> simp
  · cases Numeral.read scope.radix.toNat letters <;> simp [Except.toOption]

theorem checkAddress_eq_ok : result (checkAddress scope index w) = .ok () ↔
    w.HasValidAddress scope := by
  obtain ⟨source, indirect, space, bits, mask⟩ := w
  cases source with
  | literal address =>
    cases indirect with
    | false => simp [checkAddress, HasValidAddress]
    | true =>
      dsimp only [checkAddress]
      by_cases h : isValidAddress scope address = true <;> simp [HasValidAddress, h]
  | register | «variable» => simp [checkAddress, HasValidAddress]

theorem ofToken_eq_ok : result (ofToken scope indirect index t) = .ok w ↔
    ∃ letters, t = .word letters ∧ Denotes scope indirect letters w := by
  cases t with
  | word letters =>
    simp only [ofToken, result_bind, bind_eq_ok, ofWord_eq_ok, result_pure, Except.ok.injEq]
    constructor
    · rintro ⟨w, hmeaning, ⟨⟩, hvalid, rfl⟩
      exact ⟨letters, rfl, hmeaning, checkAddress_eq_ok.1 hvalid⟩
    · rintro ⟨letters, ⟨⟩, h⟩
      exact ⟨w, h.meaning, (), checkAddress_eq_ok.2 h.valid, rfl⟩
  | _ => simp [ofToken]

inductive Origin (scope : Scope) (indirect : Bool) : Written → Prop
  | number (number : UInt32) : Origin scope indirect (plain scope indirect (.literal number))
  | variable (v : Variable) (h : indirect = false) :
    Origin scope indirect { plain scope indirect (.variable v) with bits := v.bits }
  | cpuRegister (r : CpuRegister) (h : scope.processor = .cpu) :
    Origin scope indirect { plain scope indirect (.register (.cpu r)) with bits := some r.bits }
  | dspRegister (r : DspRegister) (h : scope.processor = .dsp)
    (haddress : indirect = true → r.isAddress = true) :
    Origin scope indirect { plain scope indirect (.register (.dsp r)) with
      bits := some 24, mask := if indirect then none else some r.mask }
  | symbol (address : UInt32) :
    Origin scope indirect { plain scope indirect (.literal address) with
      bits := some (symbolBits scope.processor address) }

theorem origin_of_register {name : String}
    (h : (ofRegister? scope indirect name).value = some w) : Origin scope indirect w := by
  cases hr : scope.register? name with
  | none =>
    rw [ofRegister?, hr] at h
    cases h
  | some r =>
    have hprocessor := hr
    rw [Scope.register?] at hprocessor
    rw [ofRegister?, hr] at h
    cases r with
    | cpu r =>
      cases h
      cases hp : scope.processor with
      | cpu => exact .cpuRegister r hp
      | dsp => simp [hp] at hprocessor
    | dsp r =>
      cases hp : scope.processor with
      | cpu => simp [hp] at hprocessor
      | dsp =>
        dsimp only at h
        split at h
        · cases h
        · rename_i haddress
          cases h
          refine .dspRegister r hp fun hindirect => ?_
          simpa [hindirect] using haddress

theorem origin_of_meaning (h : meaning? scope indirect letters = some w) :
    Origin scope indirect w := by
  rw [meaning?] at h
  split at h
  · rw [ofName?] at h
    split at h
    · rename_i hvariable
      cases h
      rw [ofVariable?] at hvariable
      cases hindirect : indirect with
      | true => simp [hindirect] at hvariable
      | false =>
        rw [hindirect, if_neg Bool.false_ne_true] at hvariable
        obtain ⟨v, _, rfl⟩ := Option.map_eq_some_iff.1 hvariable
        exact .variable v rfl
    · rw [Logged.value_bind] at h
      split at h
      · rename_i hregister
        cases h
        exact origin_of_register hregister
      · obtain ⟨address, _, rfl⟩ := Option.map_eq_some_iff.1 h
        exact .symbol address
  · obtain ⟨number, _, rfl⟩ := Option.map_eq_some_iff.1 h
    exact .number number

theorem Denotes.origin (h : Denotes scope indirect letters w) : Origin scope indirect w :=
  origin_of_meaning h.meaning

theorem Denotes.indirect_eq (h : Denotes scope indirect letters w) : w.indirect = indirect := by
  cases h.origin <;> rfl

/-- A letter changes the space of an address that has one, else its width. -/
inductive Modifies (letter : Char) : Written → Written → Prop
  | space {w : Written} {space : Space} (h : w.space.isSome = true)
      (hletter : Space.ofLetter? letter = some space) :
      Modifies letter w { w with space := some space }
  | width {w : Written} {width : Width} (h : w.space.isSome = false)
      (hletter : Width.ofLetter? letter = some width) :
      Modifies letter w { w with bits := some width.bits }

theorem withModifier_eq_ok : w.withModifier index t = .ok w' ↔
    ∃ letter, t = .word [letter] ∧ Modifies letter w w' := by
  cases t with
  | word letters =>
    constructor
    · intro h
      obtain ⟨w'', hletter, hlength⟩ := bind_eq_ok.1 h
      cases letters with
      | nil => split at hletter <;> cases hletter
      | cons letter more =>
        cases more with
        | cons => cases hlength
        | nil =>
          cases hlength
          refine ⟨letter, rfl, ?_⟩
          split at hletter
          · rename_i hspace
            split at hletter
            · rename_i hofLetter
              cases hletter
              exact .space hspace hofLetter
            · cases hletter
          · rename_i hspace
            split at hletter
            · rename_i hofLetter
              cases hletter
              exact .width (Bool.eq_false_iff.2 hspace) hofLetter
            · cases hletter
    · rintro ⟨letter, ⟨⟩, h⟩
      cases h with
      | space h hletter => simp [withModifier, h, hletter, Except.bind]
      | width h hletter => simp [withModifier, h, hletter, Except.bind]
  | _ => simp [withModifier]

inductive ReadsPlace (scope : Scope) : List Token → Written → Prop
  | word {letters : List Char} {w : Written} (h : Denotes scope false letters w) :
    ReadsPlace scope [.word letters] w
  | address {letters : List Char} {w : Written} (h : Denotes scope true letters w)
      (hspace : w.space = none) : ReadsPlace scope [.opening, .word letters, .closing] w
  | modified {letters : List Char} {letter : Char} {w w' : Written}
      (h : Denotes scope true letters w) (hmodifies : Modifies letter w w') :
      ReadsPlace scope [.opening, .word letters, .closing, .dot, .word [letter]] w'

inductive Reads (scope : Scope) : List Token → Written → Prop
  | bare {ts : List Token} {w : Written} (h : ReadsPlace scope ts w) : Reads scope ts w
  | masked {ts : List Token} {w : Written} {letters : List Char} {mask : UInt32}
      (h : ReadsPlace scope ts w) (hmask : maskOf? scope (.word letters) = some mask)
      (hrest : w.isZeroedBy mask = false) :
      Reads scope (ts ++ [.mask, .word letters]) { w with mask := some mask }

theorem ReadsPlace.isPlace (h : ReadsPlace scope ts w) : IsPlace ts := by
  cases h with
  | word => exact .word _
  | address => exact .address _
  | modified => exact .modified _ _

theorem Reads.isSide (h : Reads scope ts w) : IsSide ts := by
  cases h with
  | bare h => exact .bare h.isPlace
  | masked h => exact .masked h.isPlace _

theorem readSource_eq_ok (h : result (readSource scope cursor) = .ok (w, next)) :
    (∃ letters, Denotes scope false letters w ∧ cursor.rest = .word letters :: next.rest) ∨
      ∃ letters, Denotes scope true letters w ∧
        cursor.rest = .opening :: .word letters :: .closing :: next.rest := by
  unfold readSource at h
  split at h
  · cases h
  · rw [result_bind, bind_eq_ok] at h
    obtain ⟨w, hw, h⟩ := h
    cases h
    obtain ⟨letters, rfl, hdenotes⟩ := ofToken_eq_ok.1 hw
    exact .inr ⟨letters, hdenotes, rfl⟩
  · rw [result_bind, bind_eq_ok] at h
    obtain ⟨w, hw, h⟩ := h
    cases h
    obtain ⟨letters, rfl, hdenotes⟩ := ofToken_eq_ok.1 hw
    exact .inl ⟨letters, hdenotes, rfl⟩

theorem readModifier_eq_ok (h : w.readModifier cursor = .ok (w', next)) :
    (∃ letter, w.indirect = true ∧ Modifies letter w w' ∧
      cursor.rest = .dot :: .word [letter] :: next.rest) ∨
      (w.space.isSome && w.indirect) = false ∧ w' = w ∧ next = cursor := by
  unfold readModifier at h
  split at h
  · split at h
    · rename_i hindirect
      obtain ⟨w'', hmodifier, h⟩ := bind_eq_ok.1 h
      cases h
      obtain ⟨letter, rfl, hmodifies⟩ := withModifier_eq_ok.1 hmodifier
      exact .inl ⟨letter, hindirect, hmodifies, rfl⟩
    · cases h
  · split at h
    · cases h
    · rename_i hspace
      cases h
      exact .inr ⟨Bool.eq_false_iff.2 hspace, rfl, rfl⟩

theorem result_withMask (w : Written) (t : Token) :
    result (w.withMask scope index t) =
      match maskOf? scope t with
      | none => .error ⟨.invalidNumber, index⟩
      | some mask =>
        if w.isZeroedBy mask then .error ⟨.maskZeroesValue, index⟩
        else .ok { w with mask := some mask } := by
  have hwarn (x : Attempt Failure Written) : result (if w.isNumber then do
      Logged.warn "plain numbers shouldn't need masks"
      x else x) = result x := by
    cases w.isNumber <;> rfl
  refine (hwarn _).trans ?_
  cases maskOf? scope t with
  | none => rfl
  | some mask =>
    dsimp only
    split <;> rfl

theorem withMask_eq_ok : result (w.withMask scope index t) = .ok w' ↔
    ∃ letters mask, t = .word letters ∧ maskOf? scope (.word letters) = some mask ∧
      w.isZeroedBy mask = false ∧ w' = { w with mask := some mask } := by
  rw [result_withMask]
  constructor
  · intro h
    split at h
    · cases h
    · rename_i mask hmask
      split at h
      · cases h
      · rename_i hzeroed
        cases h
        cases t with
        | word letters => exact ⟨letters, mask, rfl, hmask, Bool.eq_false_iff.2 hzeroed, rfl⟩
        | _ => cases hmask
  · rintro ⟨letters, mask, rfl, hmask, hzeroed, rfl⟩
    rw [hmask]
    dsimp only
    rw [if_neg (Bool.eq_false_iff.1 hzeroed)]

theorem readMask_eq_ok (h : result (w.readMask scope cursor) = .ok (w', next)) :
    (∃ letters mask, maskOf? scope (.word letters) = some mask ∧ w.isZeroedBy mask = false ∧
      w' = { w with mask := some mask } ∧ cursor.rest = .mask :: .word letters :: next.rest) ∨
      w' = w ∧ next = cursor := by
  unfold readMask at h
  split at h
  · rw [result_bind, bind_eq_ok] at h
    obtain ⟨_, hw, h⟩ := h
    cases h
    obtain ⟨letters, mask, rfl, hmask, hzeroed, rfl⟩ := withMask_eq_ok.1 hw
    exact .inl ⟨letters, mask, hmask, hzeroed, rfl, rfl⟩
  · cases h
    exact .inr ⟨rfl, rfl⟩

def place (scope : Scope) (cursor : Cursor) : Except Failure (Written × Cursor) :=
  result (readSource scope cursor) >>= fun r => r.1.readModifier r.2

theorem result_read (scope : Scope) (cursor : Cursor) : result (read scope cursor) =
    place scope cursor >>= fun r => result (r.1.readMask scope r.2) := by
  simp only [read, result_bind, result_mk]
  exact (bind_assoc _ _ _).symm

theorem readsPlace_of_place (h : place scope cursor = .ok (w, next)) :
    ∃ ts, ReadsPlace scope ts w ∧ cursor.rest = ts ++ next.rest := by
  obtain ⟨⟨w, middle⟩, hsource, hmodifier⟩ := bind_eq_ok.1 h
  obtain ⟨letters, hdenotes, hrest⟩ | ⟨letters, hdenotes, hrest⟩ := readSource_eq_ok hsource
  · obtain ⟨_, htrue, _⟩ | ⟨_, rfl, rfl⟩ := readModifier_eq_ok hmodifier
    · exact absurd (hdenotes.indirect_eq.symm.trans htrue) Bool.false_ne_true
    · exact ⟨_, .word hdenotes, hrest⟩
  · obtain ⟨letter, _, hmodifies, hmore⟩ | ⟨hspace, rfl, rfl⟩ := readModifier_eq_ok hmodifier
    · rw [hmore] at hrest
      exact ⟨_, .modified hdenotes hmodifies, hrest⟩
    · rw [hdenotes.indirect_eq, Bool.and_true, Option.isSome_eq_false_iff,
        Option.isNone_iff_eq_none] at hspace
      exact ⟨_, .address hdenotes hspace, hrest⟩

theorem reads_of_read (h : result (read scope cursor) = .ok (w, next)) :
    ∃ ts, Reads scope ts w ∧ cursor.rest = ts ++ next.rest := by
  rw [result_read] at h
  obtain ⟨⟨w, middle⟩, hplace, hmask⟩ := bind_eq_ok.1 h
  obtain ⟨ts, hreads, hrest⟩ := readsPlace_of_place hplace
  obtain ⟨letters, mask, hnumber, hzeroed, rfl, hmore⟩ | ⟨rfl, rfl⟩ := readMask_eq_ok hmask
  · refine ⟨_, .masked hreads hnumber hzeroed, ?_⟩
    rw [hrest, hmore, List.append_assoc]
    rfl
  · exact ⟨ts, .bare hreads, hrest⟩

theorem readModifier_of_head (h : rest.head? ≠ some .dot)
    (hspace : (w.space.isSome && w.indirect) = false) :
    w.readModifier ⟨index, rest⟩ = .ok (w, ⟨index, rest⟩) := by
  unfold readModifier
  split
  · rename_i heq
    cases heq
    exact absurd rfl h
  · rw [hspace]
    rfl

theorem readModifier_of_modifies {letter : Char} (hindirect : w.indirect = true)
    (h : Modifies letter w w') :
    w.readModifier ⟨index, .dot :: .word [letter] :: rest⟩ = .ok (w', ⟨index + 2, rest⟩) := by
  simp only [readModifier, hindirect, if_true, withModifier_eq_ok.2 ⟨letter, rfl, h⟩, ok_bind]
  rfl

theorem readMask_of_head (h : rest.head? ≠ some .mask) :
    result (w.readMask scope ⟨index, rest⟩) = .ok (w, ⟨index, rest⟩) := by
  unfold readMask
  split
  · rename_i heq
    cases heq
    exact absurd rfl h
  · rfl

theorem readSource_word (h : Denotes scope false letters w) :
    result (readSource scope ⟨index, .word letters :: rest⟩) = .ok (w, ⟨index + 1, rest⟩) := by
  simp only [readSource, result_bind, ofToken_eq_ok.2 ⟨letters, rfl, h⟩, ok_bind, result_pure]

theorem readSource_address (h : Denotes scope true letters w) :
    result (readSource scope ⟨index, .opening :: .word letters :: .closing :: rest⟩) =
      .ok (w, ⟨index + 3, rest⟩) := by
  simp only [readSource, result_bind, ofToken_eq_ok.2 ⟨letters, rfl, h⟩, ok_bind, result_pure]

theorem place_of_readsPlace (h : ReadsPlace scope ts w) (hrest : rest.head? ≠ some .dot) :
    place scope ⟨index, ts ++ rest⟩ = .ok (w, ⟨index + ts.length, rest⟩) := by
  cases h with
  | word h =>
    refine bind_eq_ok.2 ⟨_, readSource_word h, ?_⟩
    exact readModifier_of_head hrest (by rw [h.indirect_eq, Bool.and_false])
  | address h hspace =>
    refine bind_eq_ok.2 ⟨_, readSource_address h, ?_⟩
    exact readModifier_of_head hrest (by rw [hspace]; rfl)
  | @modified letters letter v _ h hmodifies =>
    exact bind_eq_ok.2
      ⟨_, readSource_address h, readModifier_of_modifies h.indirect_eq hmodifies⟩

/-- A side is read as far as it goes if no modifier or mask can follow it. -/
theorem read_of_reads (h : Reads scope ts w) (hdot : rest.head? ≠ some .dot)
    (hmask : rest.head? ≠ some .mask) :
    result (read scope ⟨index, ts ++ rest⟩) = .ok (w, ⟨index + ts.length, rest⟩) := by
  rw [result_read]
  cases h with
  | bare h => exact bind_eq_ok.2 ⟨_, place_of_readsPlace h hdot, readMask_of_head hmask⟩
  | @masked ts v letters mask h hnumber hzeroed =>
    have hmasked (index : Nat) : result (v.withMask scope index (.word letters)) =
        .ok { v with mask := some mask } :=
      withMask_eq_ok.2 ⟨letters, mask, rfl, hnumber, hzeroed, rfl⟩
    rw [List.append_assoc, place_of_readsPlace h (by simp), ok_bind]
    simp only [List.cons_append, List.nil_append, readMask, result_bind, hmasked, ok_bind,
      result_pure, List.length_append, List.length_cons, List.length_nil, Nat.add_assoc]

end Written

variable {c : Condition}

inductive Reads (scope : Scope) : List Token → Condition → Prop
  | intro {left right : List Token} {l r : Written} (hleft : Written.Reads scope left l)
      (comparison : Comparison) (hright : Written.Reads scope right r)
      (hfits : checkAgainst (settle l r).1 (settle l r).2 = none)
      (hfits' : checkAgainst (settle l r).2 (settle l r).1 = none) :
      Reads scope (left ++ .compare comparison :: right)
        { left := (settle l r).1, comparison, right := (settle l r).2 }

theorem Reads.isComparison (h : Reads scope ts c) : IsComparison ts := by
  cases h with
  | intro hleft comparison hright => exact .intro hleft.isSide comparison hright.isSide

theorem check_eq_ok {v other : Value} :
    result (check index v other) = .ok () ↔ checkAgainst v other = none := by
  rw [check, result_bind, result_lift, ok_bind, result_bind, result_lift, ok_bind]
  cases checkAgainst v other <;> simp

theorem readComparison_eq_ok {comparison : Comparison}
    (h : readComparison cursor = .ok (comparison, next)) :
    cursor.rest = .compare comparison :: next.rest := by
  unfold readComparison at h
  split at h
  · cases h
  · split at h
    · cases h
    · cases h
      rfl
  · cases h

theorem readComparison_of_ne_nil (comparison : Comparison) (h : rest ≠ []) :
    readComparison ⟨index, .compare comparison :: rest⟩ =
      .ok (comparison, ⟨index + 1, rest⟩) := by
  rw [readComparison, if_neg (by simpa using h)]
  rfl

theorem Written.Reads.ne_nil {w : Written} (h : Written.Reads scope ts w) : ts ≠ [] := by
  cases h with
  | bare h => cases h <;> exact List.cons_ne_nil _ _
  | masked h => exact List.append_ne_nil_of_right_ne_nil _ (List.cons_ne_nil _ _)

theorem reads_of_readOne (h : result (readOne scope cursor) = .ok (c, next)) :
    ∃ ts, Reads scope ts c ∧ cursor.rest = ts ++ next.rest := by
  rw [readOne, result_bind, bind_eq_ok] at h
  obtain ⟨⟨l, middle⟩, hleft, h⟩ := h
  rw [result_bind, bind_eq_ok] at h
  obtain ⟨⟨comparison, behind⟩, hcomparison, h⟩ := h
  rw [result_bind, bind_eq_ok] at h
  obtain ⟨⟨r, last⟩, hright, h⟩ := h
  rw [result_bind, bind_eq_ok] at h
  obtain ⟨⟨⟩, hfits, h⟩ := h
  rw [result_bind, bind_eq_ok] at h
  obtain ⟨⟨⟩, hfits', h⟩ := h
  cases h
  obtain ⟨left, hl, hrest⟩ := Written.reads_of_read hleft
  obtain ⟨right, hr, hrest'⟩ := Written.reads_of_read hright
  refine ⟨_, .intro hl comparison hr (check_eq_ok.1 hfits) (check_eq_ok.1 hfits'), ?_⟩
  rw [hrest, readComparison_eq_ok hcomparison, hrest', List.append_assoc]
  rfl

theorem readOne_of_reads (h : Reads scope ts c) (hdot : rest.head? ≠ some .dot)
    (hmask : rest.head? ≠ some .mask) :
    result (readOne scope ⟨index, ts ++ rest⟩) = .ok (c, ⟨index + ts.length, rest⟩) := by
  cases h with
  | @intro left right l r hleft comparison hright hfits hfits' =>
    have hne : right ++ rest ≠ [] := List.append_ne_nil_of_left_ne_nil hright.ne_nil _
    have hl : result (Written.read scope ⟨index, left ++ .compare comparison :: (right ++ rest)⟩) =
        .ok (l, ⟨index + left.length, .compare comparison :: (right ++ rest)⟩) :=
      Written.read_of_reads hleft nofun nofun
    have hlength : index + (left ++ .compare comparison :: right).length =
        index + left.length + 1 + right.length := by
      simp only [List.length_append, List.length_cons]
      omega
    rw [List.append_assoc, List.cons_append, hlength, readOne, result_bind, hl, ok_bind,
      result_bind, result_mk, readComparison_of_ne_nil comparison hne, ok_bind, result_bind,
      Written.read_of_reads hright hdot hmask, ok_bind, result_bind, check_eq_ok.2 hfits, ok_bind,
      result_bind, check_eq_ok.2 hfits', ok_bind, result_pure]

end Monitor.Condition

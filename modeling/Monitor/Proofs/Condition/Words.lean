import Monitor.Proofs.Condition.Segments
import Monitor.Proofs.Expression.Naming
import Monitor.Proofs.Expression.Operands

namespace Monitor

open Attempt

theorem Scope.symbol?_eq_none {scope : Scope} {name : String} (filter : SymbolFilter)
    (h : scope.symbol? name .all = none) : scope.symbol? name filter = none := by
  cases hvalue : scope.symbol? name filter with
  | none => rfl
  | some address =>
    obtain ⟨table, htable, haddress⟩ := Option.bind_eq_some_iff.1 hvalue
    obtain ⟨s, hfind, _⟩ := Option.map_eq_some_iff.1 haddress
    have hall : table.addressOf? name .all = none := by
      have hbind := h
      rw [symbol?, Machine.symbol?, htable] at hbind
      exact hbind
    have hnone := List.find?_eq_none.1 (Option.map_eq_none_iff.1 hall) s
      (List.mem_of_find?_eq_some hfind)
    exact absurd rfl hnone

namespace Condition

variable {scope : Scope} {letters : List Char} {w : Written} {ts : List Token}

namespace Written

theorem valueOf?_of_ofName? {name : String} (h : (ofName? scope false name).value = some w) :
    scope.valueOf? name = some (w.source.read scope.machine) := by
  rw [ofName?, ofVariable?, if_neg Bool.false_ne_true] at h
  rw [Scope.valueOf?]
  cases hvariable : Variable.ofName? name with
  | some v =>
    rw [hvariable] at h
    cases h
    rfl
  | none =>
    rw [hvariable] at h
    simp only [Option.map_none, Logged.value_bind] at h
    cases hregister : scope.register? name with
    | some r =>
      rw [ofRegister?, hregister] at h
      cases r with
      | cpu r | dsp r =>
        cases h
        rfl
    | none =>
      rw [ofRegister?, hregister] at h
      obtain ⟨address, haddress, rfl⟩ := Option.map_eq_some_iff.1 h
      exact haddress

theorem isNameChar_of_isWordChar {c : Char} (hword : isWordChar c = true)
    (hname : Symbol.isNameChar c = true) : Operand.isNameChar c = true := by
  simp only [isWordChar, Symbol.isNameChar, Operand.isNameChar, Bool.or_eq_true, beq_iff_eq]
    at hword hname ⊢
  obtain ((((h | h) | h) | h) | h) | h := hword
  · exact .inl (.inl h)
  · exact .inl (.inr h)
  · exact .inr h
  all_goals
    subst h
    exact absurd hname (by decide)

theorem readFront_of_valueOf? {value : UInt32} (hlisted : scope.HasListedSymbols)
    (hword : ∀ c ∈ letters, isWordChar c = true) (hne : letters ≠ [])
    (hshort : letters.length < Operand.nameLimit)
    (h : scope.valueOf? (String.ofList letters) = some value) :
    Operand.readFront scope letters = .ok ⟨value, letters.length, none⟩ := by
  refine Operand.readFront_of_value (List.all_eq_true.2 fun c hc => ?_) hne hshort h
  have hname := (Scope.name_of_valueOf? hlisted h).1
  rw [String.toList_ofList, List.all_eq_true] at hname
  exact isNameChar_of_isWordChar (hword c hc) (hname c hc)

theorem readFront_of_number {value : UInt32} (hlisted : scope.HasListedSymbols)
    (hname : startsName letters = false) (hshort : letters.length < Operand.nameLimit)
    (h : Numeral.read scope.radix.toNat letters = .ok value) :
    ∃ n, Operand.readFront scope letters = .ok ⟨value, letters.length, some n⟩ := by
  refine Operand.readFront_of_number hshort (fun hne => ?_) h
  cases hvalue : scope.valueOf? (String.ofList (letters.takeWhile Operand.isNameChar)) with
  | none => rfl
  | some value =>
    -- What could be a name at the front of the word would have to start with a digit.
    have hdigit := (Scope.name_of_valueOf? hlisted hvalue).2
    cases letters with
    | nil => exact absurd rfl hne
    | cons c cs =>
      by_cases hc : Operand.isNameChar c = true
      · rw [List.takeWhile_cons, if_pos hc, String.toList_ofList] at hdigit
        simp only [startsName, List.head?_cons, Option.any_some, Bool.or_eq_false_iff] at hname
        simp only [Operand.isNameChar, hname.1, hname.2, Bool.false_or, Bool.or_false] at hc
        exact absurd (hc.symm.trans hdigit) (by decide)
      · exact absurd (List.takeWhile_cons_of_neg hc) hne

/-- A word that stands for a side is read as its source in an expression. -/
theorem readFront_of_denotes (hlisted : scope.HasListedSymbols)
    (hword : ∀ c ∈ letters, isWordChar c = true) (hne : letters ≠ [])
    (hshort : letters.length < Operand.nameLimit) (h : Denotes scope false letters w) :
    ∃ r, Operand.readFront scope letters = .ok r ∧ r.length = letters.length ∧
      r.value = w.source.read scope.machine := by
  have hmeaning := h.meaning
  rw [meaning?] at hmeaning
  split at hmeaning
  · have hvalue := valueOf?_of_ofName? hmeaning
    exact ⟨_, readFront_of_valueOf? hlisted hword hne hshort hvalue, rfl, rfl⟩
  · rename_i hname
    obtain ⟨number, hnumber, rfl⟩ := Option.map_eq_some_iff.1 hmeaning
    obtain ⟨n, hfront⟩ := readFront_of_number hlisted (Bool.eq_false_iff.2 hname) hshort
      (toOption_eq_some.1 hnumber)
    exact ⟨_, hfront, rfl, rfl⟩

/-- A word is the name of a register, or a number. The name of a symbol is neither, even if all its
letters are digits. -/
def IsRegisterOrNumber (scope : Scope) (letters : List Char) : Prop :=
  (scope.register? (String.ofList letters)).isSome ∨
    (∃ number, Numeral.read scope.radix.toNat letters = .ok number) ∧
      scope.symbol? (String.ofList letters) .all = none

theorem readFront_of_denotes_address (hlisted : scope.HasListedSymbols)
    (hcpu : scope.processor = .cpu) (hword : ∀ c ∈ letters, isWordChar c = true)
    (hne : letters ≠ []) (hshort : letters.length < Operand.nameLimit)
    (hkind : IsRegisterOrNumber scope letters) (h : Denotes scope true letters w) :
    ∃ r, Operand.readFront scope letters = .ok r ∧ r.length = letters.length ∧
      r.value = w.source.read scope.machine := by
  have hmeaning := h.meaning
  rw [meaning?] at hmeaning
  split at hmeaning
  · have hvalue : scope.valueOf? (String.ofList letters) = some (w.source.read scope.machine) := by
      rw [ofName?, ofVariable?, if_pos rfl, Logged.value_bind, ofRegister?] at hmeaning
      cases hregister : scope.register? (String.ofList letters) with
      | none =>
        rw [hregister] at hmeaning
        obtain ⟨address, haddress, rfl⟩ := Option.map_eq_some_iff.1 hmeaning
        obtain hsome | ⟨_, hnone⟩ := hkind
        · rw [hregister] at hsome
          cases hsome
        · exact absurd (haddress.symm.trans (Scope.symbol?_eq_none _ hnone)) (by simp)
      | some r =>
        obtain ⟨r, hname, rfl⟩ := Option.map_eq_some_iff.1
          (by rwa [Scope.register?, hcpu] at hregister)
        have hvariable : Variable.ofName? (String.ofList letters) = none := by
          rw [← Variable.ofName?_toUpper, ← CpuRegister.toUpper_of_ofName? hname]
          exact r.ofName?_variable
        rw [hregister] at hmeaning
        cases hmeaning
        rw [Scope.valueOf?, hvariable, hregister]
        rfl
    exact ⟨_, readFront_of_valueOf? hlisted hword hne hshort hvalue, rfl, rfl⟩
  · rename_i hname
    obtain ⟨number, hnumber, rfl⟩ := Option.map_eq_some_iff.1 hmeaning
    obtain ⟨n, hfront⟩ := readFront_of_number hlisted (Bool.eq_false_iff.2 hname) hshort
      (toOption_eq_some.1 hnumber)
    exact ⟨_, hfront, rfl, rfl⟩

theorem Denotes.space_eq {indirect : Bool} (h : Denotes scope indirect letters w) :
    w.space = defaultSpace scope := by
  cases h.origin <;> rfl

theorem Reads.denotes_word (h : Reads scope ts w) (hhead : ts.head? = some (.word letters)) :
    ∃ w₀, Denotes scope false letters w₀ ∧ w.source = w₀.source := by
  have hplace : ∀ {ts w}, ReadsPlace scope ts w → ts.head? = some (.word letters) →
      Denotes scope false letters w := by
    intro ts w hplace hhead
    cases hplace with
    | word h =>
      cases hhead
      exact h
    | address | modified => cases hhead
  cases h with
  | bare h => exact ⟨w, hplace h hhead, rfl⟩
  | @masked ts w₀ _ _ h =>
    refine ⟨w₀, hplace h ?_, rfl⟩
    cases h with
    | word | address | modified => exact hhead

theorem ReadsPlace.denotes_address (h : ReadsPlace scope ts w)
    (hstarts : [.opening, .word letters] <+: ts) :
    ∃ w₀, Denotes scope true letters w₀ ∧ w.source = w₀.source ∧ w.indirect = true ∧
      (w₀.space = none → w.space = none) := by
  cases h with
  | word => simp at hstarts
  | address h =>
    simp only [List.cons_prefix_cons, Token.word.injEq, true_and] at hstarts
    obtain ⟨rfl, -⟩ := hstarts
    exact ⟨w, h, rfl, h.indirect_eq, id⟩
  | @modified _ _ w₀ _ h hmodifies =>
    simp only [List.cons_prefix_cons, Token.word.injEq, true_and] at hstarts
    obtain ⟨rfl, -⟩ := hstarts
    cases hmodifies with
    | space hspace =>
      refine ⟨w₀, h, rfl, h.indirect_eq, fun hnone => ?_⟩
      rw [hnone] at hspace
      cases hspace
    | width => exact ⟨w₀, h, rfl, h.indirect_eq, id⟩

theorem Reads.denotes_address (h : Reads scope ts w)
    (hstarts : [.opening, .word letters] <+: ts) :
    ∃ w₀, Denotes scope true letters w₀ ∧ w.source = w₀.source ∧ w.indirect = true ∧
      (w₀.space = none → w.space = none) := by
  cases h with
  | bare h => exact h.denotes_address hstarts
  | masked h =>
    refine h.denotes_address ?_
    cases h with
    | word => simp at hstarts
    | address | modified => simpa using hstarts

end Written

def leftSide (ts : List Token) : List Token :=
  ts.takeWhile (!·.isCompare)

def rightSide (ts : List Token) : List Token :=
  (ts.dropWhile (!·.isCompare)).tail

/-- A text is accepted, and one side of one of its conditions is written with the tokens. -/
inductive HasSide (scope : Scope) (text : String) : List Token → Value → Prop
  | left {t : Tokenized} {parsed : Parsed} {i : Nat} {segment : List Token} {c : Condition}
    (htokens : tokenize text = .ok t) (hparse : result (parse scope text) = .ok parsed)
    (hsegment : (t.tokens.splitOn .and)[i]? = some segment)
    (hcondition : parsed.conditions[i]? = some c) : HasSide scope text (leftSide segment) c.left
  | right {t : Tokenized} {parsed : Parsed} {i : Nat} {segment : List Token} {c : Condition}
    (htokens : tokenize text = .ok t) (hparse : result (parse scope text) = .ok parsed)
    (hsegment : (t.tokens.splitOn .and)[i]? = some segment)
    (hcondition : parsed.conditions[i]? = some c) : HasSide scope text (rightSide segment) c.right

structure Settles (scope : Scope) (ts : List Token) (v : Value) : Prop where
  settles : ∃ w, Written.Reads scope ts w ∧ v.source = w.source ∧ v.indirect = w.indirect ∧
    v.space = w.space
  words : ∀ letters, .word letters ∈ ts → letters ≠ [] ∧ ∀ c ∈ letters, isWordChar c = true

theorem IsSide.not_compare (h : IsSide ts) : ∀ t ∈ ts, (!t.isCompare) = true := by
  have hplace : ∀ {ts}, IsPlace ts → ∀ t ∈ ts, (!t.isCompare) = true := by
    intro ts h
    cases h <;> simp [Token.isCompare]
  cases h with
  | bare h => exact hplace h
  | masked h =>
    intro t ht
    obtain ht | ht := List.mem_append.1 ht
    · exact hplace h t ht
    · rw [List.mem_pair] at ht
      obtain rfl | rfl := ht <;> rfl

theorem leftSide_append {left right : List Token} (h : IsSide left) (comparison : Comparison) :
    leftSide (left ++ .compare comparison :: right) = left := by
  rw [leftSide, List.takeWhile_append_of_pos h.not_compare, List.takeWhile_cons_of_neg (by
    simp [Token.isCompare]), List.append_nil]

theorem rightSide_append {left right : List Token} (h : IsSide left) (comparison : Comparison) :
    rightSide (left ++ .compare comparison :: right) = right := by
  rw [rightSide, List.dropWhile_append_of_pos h.not_compare, List.dropWhile_cons_of_neg (by
    simp [Token.isCompare]), List.tail_cons]

theorem mem_of_mem_splitOn {a t : Token} {segment : List Token}
    (hsegment : segment ∈ ts.splitOn a) (ht : t ∈ segment) : t ∈ ts := by
  induction ts generalizing segment with
  | nil =>
    rw [List.splitOn_nil, List.mem_singleton] at hsegment
    subst hsegment
    exact ht
  | cons u ts ih =>
    rw [List.splitOn_cons_eq_if_modifyHead] at hsegment
    split at hsegment
    · obtain rfl | hmore := List.mem_cons.1 hsegment
      · cases ht
      · exact List.mem_cons_of_mem u (ih hmore ht)
    · obtain ⟨front, more, hsplit⟩ := List.exists_cons_of_ne_nil (List.splitOn_ne_nil a ts)
      rw [hsplit] at hsegment ih
      obtain rfl | hmore := List.mem_cons.1 hsegment
      · obtain rfl | ht := List.mem_cons.1 ht
        · exact List.mem_cons_self
        · exact List.mem_cons_of_mem u (ih List.mem_cons_self ht)
      · exact List.mem_cons_of_mem u (ih (List.mem_cons_of_mem _ hmore) ht)

theorem reads_of_getElem? {segments : List (List Token)} {cs : List Condition} {i : Nat}
    {segment : List Token} {c : Condition} (h : List.Forall₂ (Reads scope) segments cs)
    (hsegment : segments[i]? = some segment) (hc : cs[i]? = some c) : Reads scope segment c := by
  induction h generalizing i with
  | nil => cases hc
  | cons hfirst _ ih =>
    cases i with
    | zero =>
      cases hsegment
      cases hc
      exact hfirst
    | succ i => exact ih hsegment hc

theorem word_of_tokenize {text : String} {t : Tokenized} (h : tokenize text = .ok t)
    (hword : .word letters ∈ t.tokens) :
    letters ≠ [] ∧ ∀ c ∈ letters, isWordChar c = true := by
  have htidy := Token.tidy_ofText (tokenize_eq_ok.1 h).1
  generalize t.tokens = ts at htidy hword
  induction htidy with
  | nil => cases hword
  | @cons t ts ht _ _ ih =>
    obtain rfl | hword := List.mem_cons.1 hword
    · exact ht
    · exact ih hword

theorem HasSide.settles {text : String} {v : Value} (h : HasSide scope text ts v) :
    Settles scope ts v := by
  -- Both sides come from the condition that is read from one segment.
  have hreads : ∀ {t : Tokenized} {parsed : Parsed} {i : Nat} {segment : List Token}
      {c : Condition}, tokenize text = .ok t → result (parse scope text) = .ok parsed →
      (t.tokens.splitOn .and)[i]? = some segment → parsed.conditions[i]? = some c →
      Reads scope segment c ∧ ∀ letters, .word letters ∈ segment →
        letters ≠ [] ∧ ∀ c ∈ letters, isWordChar c = true := by
    intro t parsed i segment c htokens hparse hsegment hcondition
    obtain ⟨ts, hts, hconditions, _⟩ := parse_eq_ok.1 hparse
    obtain rfl : ts = t.tokens := Except.ok.inj (hts.symm.trans (tokenize_eq_ok.1 htokens).1)
    refine ⟨?_, fun letters hword => word_of_tokenize htokens ?_⟩
    · exact reads_of_getElem? (ofTokens_eq_ok.1 hconditions) hsegment hcondition
    · exact mem_of_mem_splitOn (List.mem_of_getElem? hsegment) hword
  cases h with
  | left htokens hparse hsegment hcondition =>
    obtain ⟨hread, hwords⟩ := hreads htokens hparse hsegment hcondition
    cases hread with
    | @intro left right l r hleft comparison hright =>
      rw [leftSide_append hleft.isSide]
      refine ⟨⟨l, hleft, rfl, rfl, rfl⟩, fun letters hword => hwords letters ?_⟩
      exact List.mem_append_left _ hword
  | right htokens hparse hsegment hcondition =>
    obtain ⟨hread, hwords⟩ := hreads htokens hparse hsegment hcondition
    cases hread with
    | @intro left right l r hleft comparison hright =>
      rw [rightSide_append hleft.isSide]
      refine ⟨⟨r, hright, rfl, rfl, rfl⟩, fun letters hword => hwords letters ?_⟩
      exact List.mem_append_right _ (List.mem_cons_of_mem _ hword)

/-- Conditions and expressions agree on words. What a side is that starts with a word, an expression
that is the word is too; and so it is with the longs that registers and numbers point to. -/
theorem evaluate_side {text : String} {v : Value} (hlisted : scope.HasListedSymbols)
    (h : HasSide scope text ts v) :
    (∀ letters, ts.head? = some (.word letters) → letters.length < Operand.nameLimit →
      result (Expression.evaluate scope (String.ofList letters)) =
        .ok (v.source.read scope.machine)) ∧
    (scope.processor = .cpu → v.bits = 32 → ∀ letters, [.opening, .word letters] <+: ts →
      letters.length < Operand.nameLimit → Written.IsRegisterOrNumber scope letters →
      result (Expression.evaluate scope (String.ofList ('(' :: (letters ++ [')'])))) =
        .ok (v.readRaw scope.machine)) := by
  obtain ⟨⟨w, hreads, hsource, hindirect, hspace⟩, hwords⟩ := h.settles
  constructor
  · intro letters hhead hshort
    obtain ⟨hne, hword⟩ := hwords letters (List.mem_of_mem_head? hhead)
    obtain ⟨w₀, hdenotes, hw₀⟩ := hreads.denotes_word hhead
    obtain ⟨r, hfront, hlength, hvalue⟩ :=
      Written.readFront_of_denotes hlisted hword hne hshort hdenotes
    rw [Expression.evaluate_operand hfront hlength, hvalue, hsource, hw₀]
  · intro hcpu hbits letters hstarts hshort hkind
    obtain ⟨hne, hword⟩ := hwords letters (hstarts.subset (by simp))
    obtain ⟨w₀, hdenotes, hw₀, hw, hnone⟩ := hreads.denotes_address hstarts
    obtain ⟨r, hfront, hlength, hvalue⟩ :=
      Written.readFront_of_denotes_address hlisted hcpu hword hne hshort hkind hdenotes
    have hdefault : w₀.space = none := by
      rw [hdenotes.space_eq, Written.defaultSpace, hcpu]
    have hread : v.readRaw scope.machine =
        scope.machine.memory.read (v.source.read scope.machine) .long := by
      rw [Value.readRaw, hindirect, hw, if_pos rfl, hspace, hnone hdefault, Value.width, hbits]
      rfl
    rw [Expression.evaluate_address hfront hlength, hvalue, hread, hsource, hw₀]

def listedScope : Scope :=
  ⟨{ Machine.ofRam 16 with cpuSymbols := some (SymbolTable.ofListing "100 T start\n").value }, .cpu,
    .decimal⟩

theorem evaluate_side_start :
    HasSide listedScope "start = (a0).l" [.word ['s', 't', 'a', 'r', 't']]
        ⟨.literal 0x100, false, none, 32, 0xffffffff⟩ ∧
      HasSide listedScope "start = (a0).l"
        [.opening, .word ['a', '0'], .closing, .dot, .word ['l']]
        ⟨.register (.cpu (.address 0)), true, none, 32, 0xffffffff⟩ ∧
      result (Expression.evaluate listedScope "start") = .ok 0x100 ∧
      result (Expression.evaluate listedScope "(a0)") =
        .ok (listedScope.machine.memory.read
          (listedScope.machine.register (.cpu (.address 0))) .long) := by
  have hlisted : listedScope.HasListedSymbols := by
    intro table htable
    cases htable
    exact ⟨⟨_, rfl⟩, by decide +kernel⟩
  have htokens : tokenize "start = (a0).l" = .ok ⟨"start = ( a0 ) . l",
      [.word ['s', 't', 'a', 'r', 't'], .compare .equal, .opening, .word ['a', '0'], .closing,
        .dot, .word ['l']]⟩ := by decide +kernel
  have hparse : result (parse listedScope "start = (a0).l") = .ok ⟨"start = ( a0 ) . l",
      [{  left := ⟨.literal 0x100, false, none, 32, 0xffffffff⟩
          comparison := .equal
          right := ⟨.register (.cpu (.address 0)), true, none, 32, 0xffffffff⟩ }]⟩ := by
    decide +kernel
  have hleft := HasSide.left (i := 0) htokens hparse rfl rfl
  have hright := HasSide.right (i := 0) htokens hparse rfl rfl
  refine ⟨hleft, hright, ?_, ?_⟩
  · exact (evaluate_side hlisted hleft).1 _ rfl (by decide)
  · exact (evaluate_side hlisted hright).2 rfl rfl ['a', '0'] ⟨_, rfl⟩ (by decide)
      (.inl (by decide +kernel))

end Condition

end Monitor

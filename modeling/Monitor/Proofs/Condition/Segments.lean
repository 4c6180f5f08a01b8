import Mathlib.Data.List.Forall2
import Monitor.Proofs.Condition.Grammar
import Monitor.Proofs.Condition.Tokenizing

namespace Monitor.Condition

open Attempt

variable {scope : Scope} {index joints : Nat} {ts us vs : List Token} {c : Condition}
  {cs : List Condition}

theorem IsPlace.and_not_mem (h : IsPlace ts) : Token.and ∉ ts := by
  cases h <;> simp

theorem IsSide.and_not_mem (h : IsSide ts) : Token.and ∉ ts := by
  cases h with
  | bare h => exact h.and_not_mem
  | masked h letters => simp [h.and_not_mem]

theorem IsComparison.and_not_mem (h : IsComparison ts) : Token.and ∉ ts := by
  cases h with
  | intro hleft comparison hright => simp [hleft.and_not_mem, hright.and_not_mem]

theorem IsComparison.any_isCompare (h : IsComparison ts) : ts.any Token.isCompare = true := by
  cases h with
  | intro hleft comparison hright => simp [Token.isCompare]

theorem forall₂_reads_singleton :
    List.Forall₂ (Reads scope) [ts] cs ↔ ∃ c, Reads scope ts c ∧ cs = [c] := by
  constructor
  · intro h
    obtain ⟨c, _, hreads, hnil, rfl⟩ := List.forall₂_cons_left_iff.1 h
    exact ⟨c, hreads, by rw [List.forall₂_nil_left_iff.1 hnil]⟩
  · rintro ⟨c, hreads, rfl⟩
    exact .cons hreads .nil

theorem forall₂_of_readOne {next : Cursor}
    (h : result (readOne scope ⟨index, ts⟩) = .ok (c, next)) (hlast : next.rest = []) :
    List.Forall₂ (Reads scope) (ts.splitOn .and) [c] := by
  obtain ⟨us, hreads, hrest⟩ := reads_of_readOne h
  dsimp only at hrest
  rw [hlast, List.append_nil] at hrest
  rw [hrest, List.splitOn_eq_singleton hreads.isComparison.and_not_mem]
  exact .cons hreads .nil

theorem forall₂_of_readJoined (h : result (readJoined scope joints ⟨index, ts⟩) = .ok cs) :
    List.Forall₂ (Reads scope) (ts.splitOn .and) cs := by
  induction joints generalizing index ts cs with
  | zero =>
    rw [readJoined, result_bind, bind_eq_ok] at h
    obtain ⟨⟨last, next⟩, hlast, h⟩ := h
    dsimp only at h
    split at h
    · rename_i hempty
      cases h
      exact forall₂_of_readOne hlast (List.isEmpty_iff.1 hempty)
    · cases h
  | succ joints ih =>
    rw [readJoined, result_bind, bind_eq_ok] at h
    obtain ⟨⟨first, next⟩, hfirst, h⟩ := h
    dsimp only at h
    split at h
    · rename_i hempty
      cases h
      exact forall₂_of_readOne hfirst hempty
    · rename_i rest hjoint
      rw [result_bind, bind_eq_ok] at h
      obtain ⟨more, hmore, h⟩ := h
      cases h
      obtain ⟨front, hreads, hrest⟩ := reads_of_readOne hfirst
      dsimp only at hrest
      rw [hrest, hjoint,
        List.splitOn_append_cons_self_of_not_mem hreads.isComparison.and_not_mem]
      exact .cons hreads (ih hmore)
    · cases h

theorem readJoined_of_reads (h : Reads scope ts c) :
    result (readJoined scope joints ⟨index, ts⟩) = .ok [c] := by
  have hread : result (readOne scope ⟨index, ts ++ []⟩) = .ok (c, ⟨index + ts.length, []⟩) :=
    readOne_of_reads h nofun nofun
  rw [List.append_nil] at hread
  cases joints <;> rw [readJoined, result_bind, hread, ok_bind] <;> rfl

theorem readJoined_of_forall₂ (hjoints : ts.count .and ≤ joints)
    (h : List.Forall₂ (Reads scope) (ts.splitOn .and) cs) :
    result (readJoined scope joints ⟨index, ts⟩) = .ok cs := by
  induction joints generalizing index ts cs with
  | zero =>
    have hnone : Token.and ∉ ts := List.count_eq_zero.1 (Nat.le_zero.1 hjoints)
    rw [List.splitOn_eq_singleton hnone] at h
    obtain ⟨c, hreads, rfl⟩ := forall₂_reads_singleton.1 h
    exact readJoined_of_reads hreads
  | succ joints ih =>
    by_cases hmem : Token.and ∈ ts
    · obtain ⟨front, back, rfl, hfront⟩ := List.eq_append_cons_of_mem hmem
      rw [List.splitOn_append_cons_self_of_not_mem hfront] at h
      obtain ⟨c, more, hreads, hmore, rfl⟩ := List.forall₂_cons_left_iff.1 h
      -- One joint is spent here, so those behind it are still few enough.
      rw [List.count_append, List.count_cons_self] at hjoints
      have hread : result (readOne scope ⟨index, front ++ .and :: back⟩) =
          .ok (c, ⟨index + front.length, .and :: back⟩) := readOne_of_reads hreads nofun nofun
      rw [readJoined, result_bind, hread, ok_bind]
      dsimp only
      rw [result_bind, ih (by omega) hmore]
      rfl
    · rw [List.splitOn_eq_singleton hmem] at h
      obtain ⟨c, hreads, rfl⟩ := forall₂_reads_singleton.1 h
      exact readJoined_of_reads hreads

/-- A list of tokens is read as the parts between its joints are. -/
theorem ofTokens_eq_ok : result (ofTokens scope ts) = .ok cs ↔
    List.Forall₂ (Reads scope) (ts.splitOn .and) cs :=
  ⟨forall₂_of_readJoined, readJoined_of_forall₂ (Nat.le_refl _)⟩

theorem ofTokens_eq_ok_of_not_mem (h : Token.and ∉ ts) : result (ofTokens scope ts) = .ok cs ↔
    ∃ c, Reads scope ts c ∧ cs = [c] := by
  rw [ofTokens_eq_ok, List.splitOn_eq_singleton h, forall₂_reads_singleton]

theorem forall₂_reads_append {front back : List (List Token)} :
    List.Forall₂ (Reads scope) (front ++ back) cs ↔ ∃ cs₁ cs₂,
      List.Forall₂ (Reads scope) front cs₁ ∧ List.Forall₂ (Reads scope) back cs₂ ∧
        cs = cs₁ ++ cs₂ := by
  induction front generalizing cs with
  | nil => simp
  | cons us front ih =>
    simp only [List.cons_append, List.forall₂_cons_left_iff, ih]
    constructor
    · rintro ⟨c, _, hreads, ⟨cs₁, cs₂, hfront, hback, rfl⟩, rfl⟩
      exact ⟨c :: cs₁, cs₂, ⟨c, cs₁, hreads, hfront, rfl⟩, hback, rfl⟩
    · rintro ⟨_, cs₂, ⟨c, cs₁, hreads, hfront, rfl⟩, hback, rfl⟩
      exact ⟨c, cs₁ ++ cs₂, hreads, ⟨cs₁, cs₂, hfront, hback, rfl⟩, rfl⟩

theorem ofTokens_append_and : result (ofTokens scope (us ++ .and :: vs)) = .ok cs ↔ ∃ cs₁ cs₂,
    result (ofTokens scope us) = .ok cs₁ ∧ result (ofTokens scope vs) = .ok cs₂ ∧
      cs = cs₁ ++ cs₂ := by
  simp only [ofTokens_eq_ok, List.splitOn_append_cons_self, forall₂_reads_append]

theorem forall₂_reads_iff_flatten {segments : List (List Token)}
    (h : ∀ segment ∈ segments, Token.and ∉ segment) :
    List.Forall₂ (Reads scope) segments cs ↔ ∃ parts,
      List.Forall₂ (fun segment part => result (ofTokens scope segment) = .ok part) segments parts ∧
        cs = parts.flatten := by
  induction segments generalizing cs with
  | nil => simp
  | cons segment segments ih =>
    obtain ⟨hsegment, hmore⟩ := List.forall_mem_cons.1 h
    simp only [List.forall₂_cons_left_iff, ih hmore, ofTokens_eq_ok_of_not_mem hsegment]
    constructor
    · rintro ⟨c, _, hreads, ⟨parts, hparts, rfl⟩, rfl⟩
      exact ⟨[c] :: parts, ⟨[c], parts, ⟨c, hreads, rfl⟩, hparts, rfl⟩, rfl⟩
    · rintro ⟨_, ⟨_, parts, ⟨c, hreads, rfl⟩, hparts, rfl⟩, rfl⟩
      exact ⟨c, parts.flatten, hreads, ⟨parts, hparts, rfl⟩, rfl⟩

theorem not_mem_of_mem_splitOn (ts : List Token) :
    ∀ segment ∈ ts.splitOn .and, Token.and ∉ segment := by
  induction ts with
  | nil => simp
  | cons t ts ih =>
    rw [List.splitOn_cons_eq_if_modifyHead]
    split
    · rw [List.forall_mem_cons]
      exact ⟨List.not_mem_nil, ih⟩
    · rename_i hne
      obtain ⟨front, more, hsplit⟩ := List.exists_cons_of_ne_nil (List.splitOn_ne_nil Token.and ts)
      rw [hsplit, List.forall_mem_cons] at ih
      rw [hsplit, List.modifyHead_cons, List.forall_mem_cons]
      refine ⟨?_, ih.2⟩
      rw [List.mem_cons, not_or]
      exact ⟨fun h => hne (beq_iff_eq.2 h.symm), ih.1⟩

theorem any_isCompare_of_ofTokens (h : result (ofTokens scope ts) = .ok cs) :
    ts.any Token.isCompare = true := by
  by_cases hmem : Token.and ∈ ts
  · obtain ⟨front, back, rfl, hfront⟩ := List.eq_append_cons_of_mem hmem
    obtain ⟨cs₁, cs₂, hread, -, -⟩ := ofTokens_append_and.1 h
    obtain ⟨c, hreads, -⟩ := (ofTokens_eq_ok_of_not_mem hfront).1 hread
    rw [List.any_append, hreads.isComparison.any_isCompare, Bool.true_or]
  · obtain ⟨c, hreads, -⟩ := (ofTokens_eq_ok_of_not_mem hmem).1 h
    exact hreads.isComparison.any_isCompare

namespace Token

variable {offset : Nat} {front back : List Char}

theorem ofText_eq_ok_shift {cs : List Char} (h : ofText offset cs = .ok ts) (start : Nat) :
    ofText start cs = .ok ts := by
  induction cs generalizing offset start ts with
  | nil => exact h
  | cons c cs ih =>
    obtain ⟨glyph, rest, hglyph, hrest, rfl⟩ := ofText_cons_eq_ok.1 h
    exact ofText_cons_eq_ok.2 ⟨glyph, rest, hglyph, ih hrest _, rfl⟩

/-- Two texts are split one by one if what is between them is a token that does not meet either. -/
theorem ofText_between {t : Token} {middle : List Char} (ht : t.isWord = false)
    (hmiddle : ∀ offset, ofText offset middle = .ok [t]) (hhead : middle.head? ≠ some '&')
    (hlast : middle.getLast? ≠ some '&') : ofText 0 (front ++ (middle ++ back)) = .ok ts ↔
      ∃ us vs, ofText 0 front = .ok us ∧ ofText 0 back = .ok vs ∧ ts = us ++ t :: vs := by
  have hmeet : (middle ++ back).head? ≠ some '&' := by
    cases middle with
    | nil => cases hmiddle 0
    | cons c middle => exact hhead
  have hglue (us vs : List Token) : glue us (glue [t] vs) = us ++ t :: vs := by
    rw [glue_cons fun h => absurd h (Bool.eq_false_iff.1 ht)]
    exact glue_of_not_word ht us vs
  rw [ofText_append fun _ => hmeet, ofText_append fun h => absurd h hlast, hmiddle, Except.bind]
  cases ofText 0 front with
  | error e => simp [Except.bind]
  | ok us =>
    cases hback : ofText (0 + Text.size front + Text.size middle) back with
    | error e =>
      simp only [Except.bind, Except.map, reduceCtorEq, false_iff]
      rintro ⟨_, vs, -, hvs, -⟩
      cases hback.symm.trans (ofText_eq_ok_shift hvs _)
    | ok vs =>
      simp only [Except.bind, Except.map, ofText_eq_ok_shift hback 0, hglue, Except.ok.injEq,
        exists_and_left, exists_eq_left', eq_comm]

theorem ofText_joint : ofText 0 (front ++ ([' ', '&', '&', ' '] ++ back)) = .ok ts ↔
    ∃ us vs, ofText 0 front = .ok us ∧ ofText 0 back = .ok vs ∧ ts = us ++ .and :: vs :=
  ofText_between rfl (fun _ => rfl) (by decide) (by decide)

theorem join_joint {us vs : List Token} (hus : us ≠ []) (hvs : vs ≠ []) :
    join (us ++ .and :: vs) = join us ++ ([' ', '&', '&', ' '] ++ join vs) := by
  obtain ⟨v, vs, rfl⟩ := List.exists_cons_of_ne_nil hvs
  induction us with
  | nil => exact absurd rfl hus
  | cons t us ih =>
    cases us with
    | nil => rfl
    | cons u us =>
      have hcons (more : List Token) :
          join (t :: u :: more) = t.text ++ (' ' :: join (u :: more)) := rfl
      rw [List.cons_append, List.cons_append, hcons, ← List.cons_append, ih (List.cons_ne_nil u us),
        hcons, List.append_assoc]
      rfl

end Token

theorem parse_eq_ok {text : String} {parsed : Parsed} :
    result (parse scope text) = .ok parsed ↔ ∃ ts, Token.ofText 0 text.toList = .ok ts ∧
      result (ofTokens scope ts) = .ok parsed.conditions ∧
        parsed.text = String.ofList (Token.join ts) := by
  simp only [parse, result_bind, result_mk, bind_eq_ok, result_adapt, mapError_eq_ok, result_pure,
    tokenize_eq_ok]
  constructor
  · rintro ⟨t, ⟨htokens, -, htext⟩, conditions, hconditions, h⟩
    cases h
    exact ⟨t.tokens, htokens, hconditions, htext⟩
  · rintro ⟨ts, htokens, hconditions, htext⟩
    refine ⟨⟨parsed.text, ts⟩, ⟨htokens, any_isCompare_of_ofTokens hconditions, htext⟩, ?_⟩
    exact ⟨_, hconditions, rfl⟩

theorem ne_nil_of_ofTokens (h : result (ofTokens scope ts) = .ok cs) : ts ≠ [] := by
  rintro rfl
  exact absurd (any_isCompare_of_ofTokens h) Bool.false_ne_true

theorem parse_joint {a b : String} {parsed : Parsed} :
    result (parse scope (a ++ " && " ++ b)) = .ok parsed ↔ ∃ pa pb,
      result (parse scope a) = .ok pa ∧ result (parse scope b) = .ok pb ∧
        parsed = ⟨pa.text ++ " && " ++ pb.text, pa.conditions ++ pb.conditions⟩ := by
  have hlist : (a ++ " && " ++ b).toList = a.toList ++ ([' ', '&', '&', ' '] ++ b.toList) := by
    rw [String.toList_append, String.toList_append, List.append_assoc]
    rfl
  have hjoin (us vs : List Token) (hus : us ≠ []) (hvs : vs ≠ []) :
      String.ofList (Token.join (us ++ .and :: vs)) =
        String.ofList (Token.join us) ++ " && " ++ String.ofList (Token.join vs) := by
    rw [Token.join_joint hus hvs, String.ofList_append, String.append_assoc]
    exact congrArg (String.ofList (Token.join us) ++ ·) String.ofList_append
  obtain ⟨text, conditions⟩ := parsed
  simp only [parse_eq_ok, hlist, Token.ofText_joint]
  constructor
  · rintro ⟨_, ⟨us, vs, hus, hvs, rfl⟩, hread, rfl⟩
    obtain ⟨cs₁, cs₂, hread₁, hread₂, rfl⟩ := ofTokens_append_and.1 hread
    refine ⟨⟨String.ofList (Token.join us), cs₁⟩, ⟨String.ofList (Token.join vs), cs₂⟩,
      ⟨us, hus, hread₁, rfl⟩, ⟨vs, hvs, hread₂, rfl⟩, ?_⟩
    rw [hjoin us vs (ne_nil_of_ofTokens hread₁) (ne_nil_of_ofTokens hread₂)]
  · rintro ⟨pa, pb, ⟨us, hus, hread₁, hpa⟩, ⟨vs, hvs, hread₂, hpb⟩, h⟩
    obtain ⟨rfl, rfl⟩ := Parsed.mk.inj h
    refine ⟨_, ⟨us, vs, hus, hvs, rfl⟩, ofTokens_append_and.2 ⟨_, _, hread₁, hread₂, rfl⟩, ?_⟩
    rw [hjoin us vs (ne_nil_of_ofTokens hread₁) (ne_nil_of_ofTokens hread₂), hpa, hpb]

/-- Conditions are read from the parts between the joints, from each as if it stood alone: one
condition from a comparison of two sides. Texts can be joined in the same way. -/
theorem ofTokens_segmentwise (scope : Scope) :
    (∀ tokens cs, result (ofTokens scope tokens) = .ok cs ↔ ∃ parts,
      List.Forall₂ (fun segment part => result (ofTokens scope segment) = .ok part)
        (tokens.splitOn .and) parts ∧ cs = parts.flatten) ∧
    (∀ segment cs, Token.and ∉ segment → result (ofTokens scope segment) = .ok cs →
      IsComparison segment ∧ ∃ c, cs = [c]) ∧
    ∀ a b parsed, result (parse scope (a ++ " && " ++ b)) = .ok parsed ↔ ∃ pa pb,
      result (parse scope a) = .ok pa ∧ result (parse scope b) = .ok pb ∧
        parsed = ⟨pa.text ++ " && " ++ pb.text, pa.conditions ++ pb.conditions⟩ := by
  refine ⟨fun tokens cs => ?_, fun segment cs hnone h => ?_, fun a b parsed => parse_joint⟩
  · rw [ofTokens_eq_ok, forall₂_reads_iff_flatten (not_mem_of_mem_splitOn tokens)]
  · obtain ⟨c, hreads, hcs⟩ := (ofTokens_eq_ok_of_not_mem hnone).1 h
    exact ⟨hreads.isComparison, c, hcs⟩

def masked : Parsed where
  text := "( pc ) . w & 0f > 1"
  conditions :=
    [{  left := ⟨.register (.cpu .pc), true, none, 16, 0xf⟩
        comparison := .greater
        right := ⟨.literal 1, false, none, 16, 0xf⟩ }]

def mixed : Parsed where
  text := "( 8 ) . b = HBL & 3 && sr ! sr"
  conditions :=
    [{  left := ⟨.literal 8, true, none, 8, 3⟩
        comparison := .equal
        right := ⟨.variable .hbl, false, none, 32, 3⟩ },
      { left := ⟨.register (.cpu .sr), false, none, 16, 0xffff⟩
        comparison := .different
        right := ⟨.register (.cpu .sr), false, none, 16, 0xffff⟩ }]

theorem ofTokens_segmentwise_masked :
    result (parse ⟨Machine.ofRam 16, .cpu, .hexadecimal⟩
        ("( pc ).w & 0f > 1" ++ " && " ++ "(8).b=HBL & 3&&sr!sr")) =
      .ok ⟨masked.text ++ " && " ++ mixed.text, masked.conditions ++ mixed.conditions⟩ ∧
    IsComparison [.opening, .word ['p', 'c'], .closing, .dot, .word ['w'], .mask, .word ['0', 'f'],
      .compare .greater, .word ['1']] := by
  obtain ⟨-, hshape, htexts⟩ := ofTokens_segmentwise ⟨Machine.ofRam 16, .cpu, .hexadecimal⟩
  constructor
  · exact (htexts _ _ _).2 ⟨masked, mixed, by decide +kernel, by decide +kernel, rfl⟩
  · exact (hshape _ masked.conditions (by decide) (by decide +kernel)).1

end Monitor.Condition

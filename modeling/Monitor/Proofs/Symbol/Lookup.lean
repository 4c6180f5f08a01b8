import Mathlib.Data.List.TakeWhile
import Monitor.Proofs.Symbol.ByteOrder
import Monitor.Symbol.Table

namespace Monitor

section Search

variable {α κ : Type} {p q : α → Bool} {le : α → α → Bool} {l : List α} {n : Nat}

/-- The number of elements that satisfy `p` in a list that has all of these at its front. It is
found by halving. -/
def turningPoint (p : α → Bool) (l : List α) : Nat :=
  if h : 0 < l.length then
    if p l[l.length / 2] then
      l.length / 2 + 1 + turningPoint p (l.drop (l.length / 2 + 1))
    else turningPoint p (l.take (l.length / 2))
  else 0
termination_by l.length
decreasing_by
  · rw [List.length_drop]
    omega
  · rw [List.length_take]
    omega

theorem turningPoint_eq (hn : n ≤ l.length) (h : ∀ i (hi : i < l.length), p l[i] = true ↔ i < n) :
    turningPoint p l = n := by
  induction hlength : l.length using Nat.strongRecOn generalizing l n with
  | ind length ih =>
    subst hlength
    rw [turningPoint]
    split
    · rename_i hpos
      have hmiddle := h (l.length / 2) (by omega)
      split
      · rename_i hp
        have hlt := hmiddle.1 hp
        have hdrop : turningPoint p (l.drop (l.length / 2 + 1)) = n - (l.length / 2 + 1) := by
          refine ih _ (by rw [List.length_drop]; omega) ?_ (fun i hi => ?_) rfl
          · rw [List.length_drop]
            omega
          · rw [List.length_drop] at hi
            rw [List.getElem_drop, h _ (by omega)]
            omega
        omega
      · rename_i hp
        have hle : n ≤ l.length / 2 := Nat.not_lt.1 fun hlt => hp (hmiddle.2 hlt)
        refine ih _ (by rw [List.length_take]; omega) ?_ (fun i hi => ?_) rfl
        · rw [List.length_take]
          omega
        · rw [List.length_take] at hi
          rw [List.getElem_take]
          exact h _ (by omega)
    · omega

theorem eq_false_of_mem_dropWhile (h : l.Pairwise fun a b => p b = true → p a = true) :
    ∀ a ∈ l.dropWhile p, p a = false := by
  intro a ha
  cases hdrop : l.dropWhile p with
  | nil =>
    rw [hdrop] at ha
    cases ha
  | cons b back =>
    have hb : p b = false := by
      have hhead := List.head?_dropWhile_not p l
      rw [hdrop] at hhead
      simpa using hhead
    have hback := h.sublist (List.dropWhile_sublist p)
    rw [hdrop] at ha hback
    rcases List.mem_cons.1 ha with rfl | hmem
    · exact hb
    · refine Bool.eq_false_iff.2 fun hp => ?_
      rw [(List.pairwise_cons.1 hback).1 a hmem hp] at hb
      cases hb

theorem drop_turningPoint (h : l.Pairwise fun a b => p b = true → p a = true) :
    l.drop (turningPoint p l) = l.dropWhile p := by
  have hsplit : l.takeWhile p ++ l.dropWhile p = l := List.takeWhile_append_dropWhile
  have hturn : turningPoint p l = (l.takeWhile p).length := by
    refine turningPoint_eq (List.takeWhile_prefix p).length_le fun i hi => ?_
    rw [List.getElem_of_eq hsplit.symm hi, List.getElem_append]
    split
    · rename_i hlt
      exact iff_of_true (List.mem_takeWhile_imp (List.getElem_mem _)) hlt
    · rename_i hge
      rw [eq_false_of_mem_dropWhile h _ (List.getElem_mem _)]
      exact iff_of_false Bool.false_ne_true hge
  have hdrop : (l.takeWhile p ++ l.dropWhile p).drop (l.takeWhile p).length = l.dropWhile p :=
    List.drop_left
  rw [hturn, ← hdrop, hsplit]

theorem takeWhile_eq_filter (h : l.Pairwise fun a b => p b = true → p a = true) :
    l.takeWhile p = l.filter p := by
  have hfront : (l.takeWhile p).filter p = l.takeWhile p :=
    List.filter_eq_self.2 fun a ha => List.mem_takeWhile_imp ha
  have hback : (l.dropWhile p).filter p = [] :=
    List.filter_eq_nil_iff.2 fun a ha => Bool.eq_false_iff.1 (eq_false_of_mem_dropWhile h a ha)
  conv_rhs => rw [← List.takeWhile_append_dropWhile (p := p) (l := l)]
  rw [List.filter_append, hfront, hback, List.append_nil]

theorem filter_mergeSort (trans : ∀ a b c, le a b = true → le b c = true → le a c = true)
    (total : ∀ a b, (le a b || le b a) = true) (h : ∀ a b, p a = true → p b = true → le a b = true)
    (l : List α) : (l.mergeSort le).filter p = l.filter p := by
  have hsorted : (l.filter p).Pairwise fun a b => le a b = true := by
    refine List.pairwise_iff_forall_sublist.2 fun {a b} hab => h a b ?_ ?_
    · exact List.of_mem_filter (hab.subset (by simp))
    · exact List.of_mem_filter (hab.subset (by simp))
  have hsub := (List.sublist_mergeSort trans total hsorted List.filter_sublist).filter p
  rw [List.filter_filter] at hsub
  simp only [Bool.and_self] at hsub
  exact (hsub.eq_of_length ((List.mergeSort_perm l le).filter p).length_eq.symm).symm

variable [LT κ] [LE κ] [DecidableLT κ] [Std.IsLinearOrder κ] [Std.LawfulOrderLT κ] {key : α → κ}

theorem pairwise_lt (h : l.Pairwise fun a b => key a ≤ key b) (k : κ) :
    l.Pairwise fun a b => decide (key b < k) = true → decide (key a < k) = true :=
  h.imp fun hab hb => decide_eq_true (Std.lt_of_le_of_lt hab (of_decide_eq_true hb))

theorem run_eq_filter [DecidableEq κ] (h : l.Pairwise fun a b => key a ≤ key b) (k : κ) :
    (l.dropWhile (key · < k)).takeWhile (key · == k) = l.filter (key · == k) := by
  have hrest := eq_false_of_mem_dropWhile (pairwise_lt h k)
  have hrun : (l.dropWhile (key · < k)).takeWhile (key · == k) =
      (l.dropWhile (key · < k)).filter (key · == k) := by
    refine takeWhile_eq_filter ((h.sublist (List.dropWhile_sublist _)).imp_of_mem ?_)
    intro a b ha _ hab hb
    rw [beq_iff_eq] at hb ⊢
    have hle : k ≤ key a := Std.not_lt.1 (of_decide_eq_false (hrest a ha))
    exact Std.le_antisymm (hb ▸ hab) hle
  have hless : (l.takeWhile (key · < k)).filter (key · == k) = [] := by
    refine List.filter_eq_nil_iff.2 fun a ha heq => ?_
    have hlt := List.mem_takeWhile_imp (p := fun b => decide (key b < k)) ha
    exact Std.ne_of_lt (of_decide_eq_true hlt) (beq_iff_eq.1 heq)
  conv_rhs => rw [← List.takeWhile_append_dropWhile (p := fun a => decide (key a < k)) (l := l)]
  rw [List.filter_append, hless, List.nil_append, hrun]

end Search

namespace SymbolTable

variable {symbols byName : List Symbol} {name : String} {address : UInt32} {filter : SymbolFilter}

def positions (byName : List Symbol) : List (Fin byName.length) :=
  (List.finRange byName.length).mergeSort fun i j =>
    (byName.get i).address ≤ (byName.get j).address

/-- A look-up by name that halves its way to where the name begins. -/
def seekAddress? (byName : List Symbol) (name : String) (filter : SymbolFilter) : Option UInt32 :=
  let start := turningPoint (·.name < name) byName
  let sameName := (byName.drop start).takeWhile (·.name == name)
  (sameName.find? fun s => filter.accepts s.kind).map (·.address)

def seekName? (byName : List Symbol) (address : UInt32) (filter : SymbolFilter) : Option String :=
  let start := turningPoint (fun i => (byName.get i).address < address) (positions byName)
  let rest := ((positions byName).drop start).map byName.get
  let sameAddress := rest.takeWhile (·.address == address)
  (sameAddress.find? fun s => filter.accepts s.kind).map (·.name)

/-- What a search of a list by address is to give: the least name in the order of bytes, of the
symbols at the address that the filter accepts. -/
def IsLeastAt (symbols : List Symbol) (address : UInt32) (filter : SymbolFilter) :
    Option String → Prop
  | none => ∀ s ∈ symbols, s.address = address → filter.accepts s.kind = false
  | some name =>
    (∃ s ∈ symbols, s.address = address ∧ filter.accepts s.kind = true ∧ s.name = name) ∧
      ∀ s ∈ symbols, s.address = address → filter.accepts s.kind = true →
        Text.bytes name ≤ Text.bytes s.name

theorem name_trans (a b c : Symbol) (hab : decide (a.name ≤ b.name) = true)
    (hbc : decide (b.name ≤ c.name) = true) : decide (a.name ≤ c.name) = true :=
  decide_eq_true (String.le_trans (of_decide_eq_true hab) (of_decide_eq_true hbc))

theorem name_total (a b : Symbol) :
    (decide (a.name ≤ b.name) || decide (b.name ≤ a.name)) = true := by
  simpa using String.le_total a.name b.name

theorem address_trans (a b c : Symbol) (hab : decide (a.address ≤ b.address) = true)
    (hbc : decide (b.address ≤ c.address) = true) : decide (a.address ≤ c.address) = true :=
  decide_eq_true (UInt32.le_trans (of_decide_eq_true hab) (of_decide_eq_true hbc))

theorem address_total (a b : Symbol) :
    (decide (a.address ≤ b.address) || decide (b.address ≤ a.address)) = true := by
  simpa using UInt32.le_total a.address b.address

theorem pairwise_byName (symbols : List Symbol) :
    (ofList symbols).byName.Pairwise fun a b => a.name ≤ b.name :=
  (List.pairwise_mergeSort name_trans name_total symbols).imp of_decide_eq_true

theorem pairwise_byAddress (symbols : List Symbol) :
    (ofList symbols).byAddress.Pairwise fun a b => a.address ≤ b.address :=
  (List.pairwise_mergeSort address_trans address_total _).imp of_decide_eq_true

theorem filter_byName (symbols : List Symbol) (name : String) :
    (ofList symbols).byName.filter (·.name == name) = symbols.filter (·.name == name) := by
  refine filter_mergeSort name_trans name_total (fun a b ha hb => ?_) symbols
  rw [beq_iff_eq] at ha hb
  rw [ha, hb]
  exact decide_eq_true (String.le_refl name)

theorem filter_byAddress (symbols : List Symbol) (address : UInt32) :
    (ofList symbols).byAddress.filter (·.address == address) =
      (ofList symbols).byName.filter (·.address == address) := by
  refine filter_mergeSort address_trans address_total (fun a b ha hb => ?_) _
  rw [beq_iff_eq] at ha hb
  rw [ha, hb]
  exact decide_eq_true (UInt32.le_refl address)

theorem addressOf?_ofList (symbols : List Symbol) (name : String) (filter : SymbolFilter) :
    (ofList symbols).addressOf? name filter =
      (symbols.find? fun s => s.name == name && filter.accepts s.kind).map (·.address) := by
  rw [addressOf?]
  rw [run_eq_filter (pairwise_byName symbols), filter_byName, List.find?_filter]
  simp only [Bool.decide_and, Bool.decide_eq_true]

theorem nameAt?_ofList (symbols : List Symbol) (address : UInt32) (filter : SymbolFilter) :
    (ofList symbols).nameAt? address filter =
      ((ofList symbols).byName.find? fun s =>
        s.address == address && filter.accepts s.kind).map (·.name) := by
  rw [nameAt?]
  rw [run_eq_filter (pairwise_byAddress symbols), filter_byAddress, List.find?_filter]
  simp only [Bool.decide_and, Bool.decide_eq_true]

theorem isLeastAt_nameAt? (symbols : List Symbol) (address : UInt32) (filter : SymbolFilter) :
    IsLeastAt symbols address filter ((ofList symbols).nameAt? address filter) := by
  have hmem : ∀ s, s ∈ (ofList symbols).byName ↔ s ∈ symbols := fun s => List.mem_mergeSort
  rw [nameAt?_ofList]
  cases hfind : (ofList symbols).byName.find? fun s =>
      s.address == address && filter.accepts s.kind with
  | none =>
    intro s hs haddress
    have hnone := List.find?_eq_none.1 hfind s ((hmem s).2 hs)
    simpa [haddress] using hnone
  | some found =>
    obtain ⟨hfound, front, back, hsplit, hfront⟩ := List.find?_eq_some_iff_append.1 hfind
    obtain ⟨haddress, haccepts⟩ := Bool.and_eq_true_iff.1 hfound
    have hfoundmem : found ∈ (ofList symbols).byName := List.mem_of_find?_eq_some hfind
    refine ⟨⟨found, (hmem found).1 hfoundmem, beq_iff_eq.1 haddress, haccepts, rfl⟩, ?_⟩
    intro s hs hat haccepted
    have hsorted := pairwise_byName symbols
    have hs := (hmem s).2 hs
    rw [hsplit] at hs hsorted
    rw [Text.bytes_le_iff]
    rcases List.mem_append.1 hs with hs | hs
    · have hskipped := hfront s hs
      simp [hat, haccepted] at hskipped
    · rcases List.mem_cons.1 hs with rfl | hs
      · exact String.le_refl _
      · exact (List.pairwise_cons.1 (List.pairwise_append.1 hsorted).2.1).1 s hs

theorem seekAddress?_byName (symbols : List Symbol) (name : String) (filter : SymbolFilter) :
    seekAddress? (ofList symbols).byName name filter = (ofList symbols).addressOf? name filter := by
  rw [seekAddress?, addressOf?]
  rw [drop_turningPoint (pairwise_lt (pairwise_byName symbols) name)]

theorem map_positions (byName : List Symbol) :
    (positions byName).map byName.get = byName.mergeSort fun a b => a.address ≤ b.address := by
  have hall : (List.finRange byName.length).map byName.get = byName :=
    List.map_getElem_finRange byName
  conv_rhs => rw [← hall]
  exact List.map_mergeSort fun i _ j _ => rfl

theorem seekName?_byName (symbols : List Symbol) (address : UInt32) (filter : SymbolFilter) :
    seekName? (ofList symbols).byName address filter = (ofList symbols).nameAt? address filter := by
  have hmap : (positions (ofList symbols).byName).map (ofList symbols).byName.get =
      (ofList symbols).byAddress := map_positions _
  have hsorted := pairwise_byAddress symbols
  rw [← hmap, List.pairwise_map] at hsorted
  rw [seekName?, nameAt?, ← hmap, List.dropWhile_map]
  rw [drop_turningPoint (pairwise_lt hsorted address)]
  rfl

/-- Look-ups find what a search of the list would that the table was made from, and so do look-ups
that halve their way: by name, the first symbol with that name that the filter accepts; by address,
the least name. -/
theorem lookups_eq_search (symbols : List Symbol) (name : String) (address : UInt32)
    (filter : SymbolFilter) :
    (ofList symbols).addressOf? name filter =
      (symbols.find? fun s => s.name == name && filter.accepts s.kind).map (·.address) ∧
    IsLeastAt symbols address filter ((ofList symbols).nameAt? address filter) ∧
    seekAddress? (ofList symbols).byName name filter = (ofList symbols).addressOf? name filter ∧
    seekName? (ofList symbols).byName address filter = (ofList symbols).nameAt? address filter :=
  ⟨addressOf?_ofList symbols name filter, isLeastAt_nameAt? symbols address filter,
    seekAddress?_byName symbols name filter, seekName?_byName symbols address filter⟩

end SymbolTable

end Monitor

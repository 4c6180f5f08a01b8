import Monitor.Proofs.Condition.Testing

namespace Monitor

namespace Comparison

/-- Whether a value stands out from those before it, the first of which is given apart: as a change,
as a new extreme, or as the first value again. -/
def StandsOut (c : Comparison) (first : UInt32) (earlier : List UInt32) (v : UInt32) : Prop :=
  match c with
  | .different => v ≠ earlier.getLastD first
  | .greater => ∀ w ∈ first :: earlier, w < v
  | .less => ∀ w ∈ first :: earlier, v < w
  | .equal => v = first

def note (c : Comparison) (kept v : UInt32) : UInt32 :=
  if c.holds v kept && c != .equal then v else kept

def record (c : Comparison) (first : UInt32) (earlier : List UInt32) : UInt32 :=
  earlier.foldl c.note first

theorem holds_less {a b : UInt32} : holds .less a b = true ↔ a < b :=
  decide_eq_true_iff

theorem holds_greater {a b : UInt32} : holds .greater a b = true ↔ b < a :=
  decide_eq_true_iff

theorem holds_trans {c : Comparison} {u v w : UInt32} (hc : c = .less ∨ c = .greater)
    (h : c.holds u v = true) (h' : c.holds v w = true) : c.holds u w = true := by
  obtain rfl | rfl := hc
  · exact holds_less.2 (UInt32.lt_trans (holds_less.1 h) (holds_less.1 h'))
  · exact holds_greater.2 (UInt32.lt_trans (holds_greater.1 h') (holds_greater.1 h))

theorem holds_of_not_holds {c : Comparison} {u v w : UInt32} (hc : c = .less ∨ c = .greater)
    (h : c.holds u w = true) (h' : ¬c.holds v w = true) : c.holds u v = true := by
  obtain rfl | rfl := hc
  · have hle := UInt32.not_lt.1 fun hlt => h' (holds_less.2 hlt)
    exact holds_less.2 (UInt32.lt_of_lt_of_le (holds_less.1 h) hle)
  · have hle := UInt32.not_lt.1 fun hlt => h' (holds_greater.2 hlt)
    exact holds_greater.2 (UInt32.lt_of_le_of_lt hle (holds_greater.1 h))

theorem forall_holds_note {c : Comparison} (hc : c = .less ∨ c = .greater) (first w v : UInt32)
    (more : List UInt32) : (∀ u ∈ c.note first w :: more, c.holds v u = true) ↔
      ∀ u ∈ first :: w :: more, c.holds v u = true := by
  have hne : c ≠ .equal := by obtain rfl | rfl := hc <;> exact Comparison.noConfusion
  rw [List.forall_mem_cons, List.forall_mem_cons, List.forall_mem_cons]
  by_cases h : c.holds w first = true
  · rw [note, h, Bool.true_and, if_pos (bne_iff_ne.2 hne)]
    exact ⟨fun hw => ⟨holds_trans hc hw.1 h, hw⟩, fun hw => hw.2⟩
  · rw [note, Bool.eq_false_iff.2 h, Bool.false_and, if_neg Bool.false_ne_true]
    exact ⟨fun hw => ⟨hw.1, holds_of_not_holds hc hw.1 h, hw.2⟩, fun hw => ⟨hw.1, hw.2.2⟩⟩

theorem note_different (kept v : UInt32) : note .different kept v = v := by
  by_cases h : v = kept
  · simp [note, holds, h]
  · simp [note, holds, h]

theorem standsOut_note (c : Comparison) (first w v : UInt32) (more : List UInt32) :
    c.StandsOut (c.note first w) more v ↔ c.StandsOut first (w :: more) v := by
  cases c with
  | less =>
    simp only [StandsOut, ← holds_less]
    exact forall_holds_note (.inl rfl) first w v more
  | greater =>
    simp only [StandsOut, ← holds_greater]
    exact forall_holds_note (.inr rfl) first w v more
  | equal => simp [StandsOut, note]
  | different => simp only [StandsOut, note_different, List.getLastD_cons]

/-- The kept value alone tells which values stand out. -/
theorem holds_record (c : Comparison) (first v : UInt32) (earlier : List UInt32) :
    c.holds v (c.record first earlier) = true ↔ c.StandsOut first earlier v := by
  induction earlier generalizing first with
  | nil =>
    cases c with
    | less => simp only [record, List.foldl_nil, holds_less, StandsOut, List.forall_mem_singleton]
    | greater =>
      simp only [record, List.foldl_nil, holds_greater, StandsOut, List.forall_mem_singleton]
    | equal => exact beq_iff_eq
    | different => exact bne_iff_ne
  | cons w more ih => exact (ih (c.note first w)).trans (c.standsOut_note first w v more)

end Comparison

namespace Condition

variable {c : Condition} {kept : UInt32} (m : Machine)

def keeping (c : Condition) (kept : UInt32) : Condition :=
  { c with
    right := { c.right with source := .literal kept, indirect := false }
    tracks := c.comparison != .equal }

theorem freeze_eq_keeping (h : c.left = c.right) (htracks : c.tracks = false) :
    c.freeze m = c.keeping (c.left.read m) := by
  simp [freeze, isReflexive, keeping, h, htracks]

theorem holds_keeping (h : c.left = c.right) (hmask : kept &&& c.left.mask = kept) :
    (c.keeping kept).holds m = c.comparison.holds (c.left.read m) kept := by
  have hright : (c.keeping kept).right.read m = kept := by
    rw [← hmask, h]
    simp [keeping, Value.read, Value.readRaw, Source.read, UInt32.and_assoc]
  rw [holds, hright]
  rfl

theorem refresh_keeping (v : UInt32) (hv : c.left.read m = v)
    (hholds : c.comparison.holds v kept = true) :
    (c.keeping kept).refresh m = c.keeping (c.comparison.note kept v) := by
  by_cases hequal : c.comparison = .equal
  · simp [refresh, keeping, Comparison.note, hequal]
  · simp [refresh, keeping, Comparison.note, hequal, hholds, hv]

theorem value_test_keeping (h : c.left = c.right) (hmask : kept &&& c.left.mask = kept) :
    ((c.keeping kept).test m).value = (c.comparison.holds (c.left.read m) kept,
      c.keeping (c.comparison.note kept (c.left.read m))) := by
  rw [value_test, holds_keeping m h hmask]
  cases hholds : c.comparison.holds (c.left.read m) kept with
  | false => simp [Comparison.note, hholds]
  | true => rw [if_pos rfl, refresh_keeping m _ rfl hholds]

theorem read_and_mask (v : Value) : v.read m &&& v.mask = v.read m := by
  rw [Value.read, UInt32.and_assoc, UInt32.and_self]

theorem note_and_mask (hmask : kept &&& c.left.mask = kept) :
    c.comparison.note kept (c.left.read m) &&& c.left.mask =
      c.comparison.note kept (c.left.read m) := by
  rw [Comparison.note]
  split
  · exact read_and_mask m c.left
  · exact hmask

end Condition

end Monitor

import Mathlib.Data.List.Forall2
import Monitor.Proofs.Condition.Segments
import Monitor.Proofs.Condition.Testing

namespace Monitor

open Attempt

variable {scope : Scope}

def widths : Processor → List Nat
  | .cpu => [8, 16, 32]
  | .dsp => [16, 24, 32]

theorem lowBits_ne_zero {processor : Processor} {bits : Nat} (h : bits ∈ widths processor) :
    lowBits bits ≠ 0 := by
  revert bits
  cases processor <;> decide

theorem ofBits?_isSome {bits : Nat} (h : bits ∈ widths .cpu) :
    (Width.ofBits? bits).isSome = true := by
  revert bits
  decide

/-- What the address of a value comes from: a number that there is memory at, or a register that can
point into memory. -/
inductive Source.IsAddress (scope : Scope) : Source → Prop
  | literal {address : UInt32} (h : Condition.Written.isValidAddress scope address = true) :
    IsAddress scope (.literal address)
  | cpu (r : CpuRegister) (h : scope.processor = .cpu) : IsAddress scope (.register (.cpu r))
  | dsp (n : Fin 8) (h : scope.processor = .dsp) : IsAddress scope (.register (.dsp (.address n)))

theorem Source.IsAddress.toNat_lt {source : Source} (h : source.IsAddress scope)
    (hprocessor : scope.processor = .dsp) (m : Machine) : (source.read m).toNat < 65536 := by
  cases h with
  | @literal address h =>
    rw [Condition.Written.isValidAddress, hprocessor] at h
    exact Nat.lt_succ_of_le (UInt32.le_iff_toNat_le.1 (of_decide_eq_true h))
  | cpu r h => cases hprocessor.symm.trans h
  | dsp n =>
    have hmask : (m.dspRegister (.address n)).toNat ≤ (0xffff : UInt32).toNat := by
      rw [Machine.dspRegister, UInt32.toNat_and]
      exact Nat.and_le_right
    exact Nat.lt_succ_of_le hmask

namespace Value

variable {v : Value}

/-- The width of an access to memory. There is none for a width that CPU memory does not have. -/
def access? (v : Value) : Option Width :=
  match v.space with
  | some _ => some .long
  | none => Width.ofBits? v.bits

/-- The present value of a side that need not be possible to read. -/
def read? (m : Machine) (v : Value) : Option UInt32 :=
  let number := v.source.read m
  (if v.indirect then v.access?.map (m.readMemory number v.space) else some number).map
    (· &&& v.mask)

structure Sound (scope : Scope) (v : Value) : Prop where
  space : v.space.isSome = true ↔ scope.processor = .dsp
  bits : v.bits ∈ widths scope.processor
  address : v.indirect = true → v.source.IsAddress scope
  mask : v.mask ≠ 0

theorem Sound.read?_eq (h : v.Sound scope) (m : Machine) : v.read? m = some (v.read m) := by
  obtain ⟨source, indirect, space, bits, mask⟩ := v
  cases indirect with
  | false => rfl
  | true =>
    cases space with
    | some space => rfl
    | none =>
      have hcpu : scope.processor = .cpu := by
        cases hprocessor : scope.processor with
        | cpu => rfl
        | dsp => exact absurd (h.space.2 hprocessor) Bool.false_ne_true
      have hbits := h.bits
      rw [hcpu] at hbits
      obtain ⟨width, hwidth⟩ := Option.isSome_iff_exists.1 (ofBits?_isSome hbits)
      dsimp only at hwidth
      simp only [read?, access?, read, readRaw, Value.width, hwidth, if_true, Option.map_some,
        Option.getD_some]

/-- No read of a value goes wrong: there is an access of its width, and an address of the DSP is not
cut off. -/
def Readable (scope : Scope) (v : Value) : Prop :=
  ∀ m, v.read? m = some (v.read m) ∧
    (scope.processor = .dsp → v.indirect = true → (v.source.read m).toNat < 65536)

theorem Sound.readable (h : v.Sound scope) : v.Readable scope := fun m =>
  ⟨h.read?_eq m, fun hprocessor hindirect => (h.address hindirect).toNat_lt hprocessor m⟩

theorem isSome_number? : v.number?.isSome = true ↔
    v.indirect = false ∧ ∃ number, v.source = .literal number := by
  obtain ⟨source, indirect, space, bits, mask⟩ := v
  cases source <;> cases indirect <;> simp [number?]

end Value

namespace Condition

structure Written.Sound (scope : Scope) (w : Written) : Prop where
  space : w.space.isSome = true ↔ scope.processor = .dsp
  bits : ∀ bits, w.bits = some bits → bits ∈ widths scope.processor
  address : w.indirect = true → w.source.IsAddress scope
  mask : ∀ mask, w.mask = some mask → mask ≠ 0

namespace Written

variable {indirect : Bool} {letters : List Char} {letter : Char} {w w' l r : Written}
  {ts : List Token}

theorem defaultSpace_isSome : (defaultSpace scope).isSome = true ↔ scope.processor = .dsp := by
  rw [defaultSpace]
  cases scope.processor <;> simp

theorem bits_mem_widths (processor : Processor) (v : Variable) :
    ∀ bits, v.bits = some bits → bits ∈ widths processor := by
  cases processor <;> cases v <;> simp [Variable.bits, widths]

theorem cpuBits_mem_widths (r : CpuRegister) : r.bits ∈ widths .cpu := by
  cases r <;> simp [CpuRegister.bits, widths]

theorem symbolBits_mem_widths (processor : Processor) (address : UInt32) :
    symbolBits processor address ∈ widths processor := by
  cases processor with
  | cpu =>
    rw [symbolBits]
    split <;> decide
  | dsp => exact List.mem_of_mem_tail (List.mem_cons_self ..)

theorem dspMask_ne_zero (r : DspRegister) : r.mask ≠ 0 := by
  cases r <;> simp [DspRegister.mask]

theorem Origin.sound (h : Origin scope indirect w) (hvalid : w.HasValidAddress scope) :
    w.Sound scope := by
  cases h with
  | number number =>
    exact ⟨defaultSpace_isSome, nofun, fun hindirect => .literal (hvalid _ rfl hindirect), nofun⟩
  | «variable» v h =>
    refine ⟨defaultSpace_isSome, bits_mem_widths _ v, fun hindirect => ?_, nofun⟩
    cases h.symm.trans hindirect
  | cpuRegister r h =>
    refine ⟨defaultSpace_isSome, ?_, fun _ => .cpu r h, nofun⟩
    rintro _ ⟨⟩
    exact h ▸ cpuBits_mem_widths r
  | dspRegister r h haddress =>
    refine ⟨defaultSpace_isSome, ?_, fun hindirect => ?_, fun mask hmask => ?_⟩
    · rintro _ ⟨⟩
      rw [h]
      decide
    · cases r with
      | address n => exact .dsp n h
      | _ => cases haddress hindirect
    · dsimp only at hmask
      split at hmask
      · cases hmask
      · cases hmask
        exact dspMask_ne_zero r
  | symbol address =>
    refine ⟨defaultSpace_isSome, ?_, fun hindirect => .literal (hvalid _ rfl hindirect), nofun⟩
    rintro _ ⟨⟩
    exact symbolBits_mem_widths scope.processor address

theorem widthBits_mem_widths (width : Width) : width.bits ∈ widths .cpu := by
  cases width <;> decide

theorem Modifies.sound (h : Modifies letter w w') (hw : w.Sound scope) : w'.Sound scope := by
  cases h with
  | space h hletter => exact ⟨⟨fun _ => hw.space.1 h, fun _ => rfl⟩, hw.bits, hw.address, hw.mask⟩
  | @width width h hletter =>
    refine ⟨hw.space, ?_, hw.address, hw.mask⟩
    rintro _ ⟨⟩
    cases hprocessor : scope.processor with
    | cpu => exact widthBits_mem_widths width
    | dsp => exact absurd (h.symm.trans (hw.space.2 hprocessor)) Bool.false_ne_true

theorem Denotes.sound (h : Denotes scope indirect letters w) : w.Sound scope :=
  h.origin.sound h.valid

theorem ReadsPlace.sound (h : ReadsPlace scope ts w) : w.Sound scope := by
  cases h with
  | word h => exact h.sound
  | address h hspace => exact h.sound
  | modified h hmodifies => exact hmodifies.sound h.sound

theorem Reads.sound (h : Reads scope ts w) : w.Sound scope := by
  cases h with
  | bare h => exact h.sound
  | masked h hmask hrest =>
    refine ⟨h.sound.space, h.sound.bits, h.sound.address, ?_⟩
    rintro _ ⟨⟩ rfl
    cases hrest

theorem getD_prop {α : Type} {p : α → Prop} {o : Option α} {d : α} (ho : ∀ a, o = some a → p a)
    (hd : p d) : p (o.getD d) := by
  cases o with
  | none => exact hd
  | some a => exact ho a rfl

/-- The widths of both sides are ones that sides have, so the masks taken from widths are no more
zero than those that are written. -/
theorem sound_settle (hl : l.Sound scope) (hr : r.Sound scope) :
    (settle l r).1.Sound scope ∧ (settle l r).2.Sound scope := by
  have hdefault : (if l.space.isSome then 24 else 32) ∈ widths scope.processor := by
    cases hprocessor : scope.processor with
    | cpu =>
      rw [if_neg fun h => Processor.noConfusion (hprocessor.symm.trans (hl.space.1 h))]
      decide
    | dsp =>
      rw [if_pos (hl.space.2 hprocessor)]
      decide
  have hbits : (settle l r).1.bits ∈ widths scope.processor := by
    dsimp only [settle]
    rw [Option.getD_or]
    exact getD_prop hl.bits (getD_prop hr.bits hdefault)
  have hmask : (settle l r).1.mask ≠ 0 := by
    dsimp only [settle] at hbits ⊢
    rw [Option.getD_or]
    exact getD_prop hl.mask (getD_prop hr.mask (lowBits_ne_zero hbits))
  exact ⟨⟨hl.space, hbits, hl.address, hmask⟩,
    ⟨hr.space, getD_prop hr.bits hbits, hr.address, getD_prop hr.mask hmask⟩⟩

end Written

variable {tokens : List Token} {c d : Condition} {cs ds : List Condition} (m : Machine)

/-- A condition of sound sides. If it tracks, its right side is a number that is read like the left
side. -/
structure Sound (scope : Scope) (c : Condition) : Prop where
  left : c.left.Sound scope
  right : c.right.Sound scope
  number : c.tracks = true → c.right.number?.isSome = true ∧ c.right.bits = c.left.bits ∧
    c.right.mask = c.left.mask ∧ c.right.space = c.left.space

theorem Reads.sound {ts : List Token} (h : Reads scope ts c) : c.Sound scope := by
  cases h with
  | intro hleft comparison hright hfits hfits' =>
    have hsides := Written.sound_settle hleft.sound hright.sound
    exact ⟨hsides.1, hsides.2, nofun⟩

theorem Sound.freeze (h : c.Sound scope) : (c.freeze m).Sound scope := by
  rw [Condition.freeze]
  split
  · rename_i hreflexive
    have hsame : c.left = c.right := beq_iff_eq.1 hreflexive
    refine ⟨h.left, ⟨h.right.space, h.right.bits, nofun, h.right.mask⟩, fun _ => ⟨rfl, ?_⟩⟩
    dsimp only
    rw [hsame]
    exact ⟨rfl, rfl, rfl⟩
  · exact h

/-- All that tests change: the number that a tracking condition compares with. -/
inductive Updates (c : Condition) : Condition → Prop
  | same : Updates c c
  | number (h : c.tracks = true) (number : UInt32) :
    Updates c { c with right := { c.right with source := .literal number } }

theorem Updates.trans {e : Condition} (h : Updates c d) (h' : Updates d e) : Updates c e := by
  cases h with
  | same => exact h'
  | number h number =>
    cases h' with
    | same => exact .number h number
    | number _ number => exact .number h number

theorem updates_refresh (c : Condition) : Updates c (c.refresh m) := by
  rw [refresh]
  split
  · rename_i htracks
    exact .number htracks (c.left.read m)
  · exact .same

theorem updates_test (c : Condition) : Updates c (c.test m).value.2 := by
  rw [value_test]
  split
  · exact updates_refresh m c
  · exact .same

theorem updates_testAll (cs : List Condition) :
    List.Forall₂ Updates cs (testAll m cs).value.2 := by
  induction cs with
  | nil => exact .nil
  | cons c more ih =>
    rw [testAll_cons]
    split
    · exact .cons (updates_refresh m c) ih
    · exact .cons .same (List.forall₂_same.2 fun _ _ => .same)

theorem Sound.updates (h : c.Sound scope) (hupdates : Updates c d) : d.Sound scope := by
  cases hupdates with
  | same => exact h
  | number htracks number =>
    obtain ⟨hnumber, hsame⟩ := h.number htracks
    obtain ⟨hindirect, -⟩ := Value.isSome_number?.1 hnumber
    refine ⟨h.left, ⟨h.right.space, h.right.bits, fun haddress => ?_, h.right.mask⟩, fun _ => ?_⟩
    · exact absurd (hindirect.symm.trans haddress) Bool.false_ne_true
    · exact ⟨Value.isSome_number?.2 ⟨hindirect, number, rfl⟩, hsame⟩

inductive Evaluation
  | one (place : Nat) (m : Machine)
  | all (m : Machine)

def Evaluation.apply (cs : List Condition) : Evaluation → List Condition
  | .one place m => cs.modify place fun c => (c.test m).value.2
  | .all m => (testAll m cs).value.2

def evaluate (cs : List Condition) (steps : List Evaluation) : List Condition :=
  steps.foldl Evaluation.apply cs

theorem updates_modify (place : Nat) (cs : List Condition) :
    List.Forall₂ Updates cs (cs.modify place fun c => (c.test m).value.2) := by
  induction cs generalizing place with
  | nil =>
    rw [List.modify_nil]
    exact .nil
  | cons c more ih =>
    cases place with
    | zero => exact .cons (updates_test m c) (List.forall₂_same.2 fun _ _ => .same)
    | succ place => exact .cons .same (ih place)

theorem updates_apply (cs : List Condition) (step : Evaluation) :
    List.Forall₂ Updates cs (step.apply cs) := by
  cases step with
  | one place m => exact updates_modify m place cs
  | all m => exact updates_testAll m cs

theorem forall₂_updates_trans {es : List Condition} (h : List.Forall₂ Updates cs ds)
    (h' : List.Forall₂ Updates ds es) : List.Forall₂ Updates cs es := by
  induction h generalizing es with
  | nil => exact h'
  | cons hc _ ih =>
    cases h' with
    | cons hd hmore => exact .cons (hc.trans hd) (ih hmore)

theorem updates_evaluate (cs : List Condition) (steps : List Evaluation) :
    List.Forall₂ Updates cs (evaluate cs steps) := by
  induction steps generalizing cs with
  | nil => exact List.forall₂_same.2 fun _ _ => .same
  | cons step steps ih => exact forall₂_updates_trans (updates_apply cs step) (ih (step.apply cs))

theorem forall_sound_updates (hs : ∀ c ∈ cs, c.Sound scope) (h : List.Forall₂ Updates cs ds) :
    ∀ d ∈ ds, d.Sound scope := by
  induction h with
  | nil => exact hs
  | cons hc _ ih =>
    obtain ⟨hsound, hmore⟩ := List.forall_mem_cons.1 hs
    exact List.forall_mem_cons.2 ⟨hsound.updates hc, ih hmore⟩

theorem forall_sound_reads {segments : List (List Token)}
    (h : List.Forall₂ (Reads scope) segments cs) : ∀ c ∈ cs, c.Sound scope := by
  induction h with
  | nil => exact List.forall_mem_nil _
  | cons hreads _ ih => exact List.forall_mem_cons.2 ⟨hreads.sound, ih⟩

/-- Conditions that were read stay sound when they are frozen and however often they are tested on
whatever machines. No read of them goes wrong, and only the numbers of those that track change. -/
theorem sound_evaluate (h : result (ofTokens scope tokens) = .ok cs) (first : Machine)
    (steps : List Evaluation) :
    (∀ c ∈ cs ++ (freezeAll first cs).value.2 ++ evaluate (freezeAll first cs).value.2 steps,
      c.Sound scope ∧ c.left.Readable scope ∧ c.right.Readable scope) ∧
    List.Forall₂ Updates (freezeAll first cs).value.2
      (evaluate (freezeAll first cs).value.2 steps) := by
  have hread : ∀ c ∈ cs, c.Sound scope := forall_sound_reads (ofTokens_eq_ok.1 h)
  have hfrozen : ∀ c ∈ (freezeAll first cs).value.2, c.Sound scope := by
    rw [freezeAll_value, List.forall_mem_map]
    exact fun c hc => (hread c hc).freeze first
  have hupdates := updates_evaluate (freezeAll first cs).value.2 steps
  refine ⟨fun c hc => ?_, hupdates⟩
  have hsound : c.Sound scope := by
    rw [List.append_assoc, List.mem_append, List.mem_append] at hc
    obtain hc | hc | hc := hc
    · exact hread c hc
    · exact hfrozen c hc
    · exact forall_sound_updates hfrozen hupdates c hc
  exact ⟨hsound, hsound.left.readable, hsound.right.readable⟩

def blanking (hbl : UInt32) : Machine :=
  { Machine.ofRam 16 with hbl }

def watching : List Token :=
  [.word ['H', 'B', 'L'], .mask, .word ['0', 'f', 'f'], .compare .greater, .word ['H', 'B', 'L'],
    .mask, .word ['0', 'f', 'f'], .and, .opening, .word ['r', '3'], .closing, .dot, .word ['x'],
    .compare .different, .word ['5']]

def watched (source : Source) (tracks : Bool) : List Condition :=
  [{  left := ⟨.variable .hbl, false, some .p, 32, 0xff⟩
      comparison := .greater
      right := ⟨source, false, some .p, 32, 0xff⟩
      tracks },
    { left := ⟨.register (.dsp (.address ⟨3, by decide⟩)), true, some .x, 24, 0xffffff⟩
      comparison := .different
      right := ⟨.literal 5, false, some .p, 24, 0xffffff⟩ }]

theorem sound_evaluate_watching :
    (∀ c ∈ watched (.literal 0x17) true, c.Sound ⟨blanking 0x15, .dsp, .hexadecimal⟩ ∧
      c.left.Readable ⟨blanking 0x15, .dsp, .hexadecimal⟩) ∧
    List.Forall₂ Updates (watched (.literal 0x15) true) (watched (.literal 0x17) true) := by
  have hread : result (ofTokens ⟨blanking 0x15, .dsp, .hexadecimal⟩ watching) =
      .ok (watched (.variable .hbl) false) := by decide +kernel
  have hfrozen : (freezeAll (blanking 0x15) (watched (.variable .hbl) false)).value.2 =
      watched (.literal 0x15) true := by decide +kernel
  have hrun : evaluate (watched (.literal 0x15) true)
      [.one 0 (blanking 0x116), .all (blanking 0x203), .one 0 (blanking 0x17)] =
        watched (.literal 0x17) true := by decide +kernel
  have h := sound_evaluate hread (blanking 0x15)
    [.one 0 (blanking 0x116), .all (blanking 0x203), .one 0 (blanking 0x17)]
  rw [hfrozen, hrun] at h
  exact ⟨fun c hc => ⟨(h.1 c (List.mem_append_right _ hc)).1,
    (h.1 c (List.mem_append_right _ hc)).2.1⟩, h.2⟩

end Condition

end Monitor

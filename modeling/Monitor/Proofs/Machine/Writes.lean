import Monitor.Machine.State
import Monitor.Proofs.Machine.Cells

namespace Monitor

namespace Memory

variable {m : Memory} {size n : Nat} {a : UInt32} {bytes : List UInt8}
  {stores : List (UInt32 × UInt8)}

theorem Holds.readBytes_pokeAll (h : Holds size stores m) (hvalid : m.isValid a n = true)
    (bytes : List UInt8) (hn : bytes.length ≤ n) (hlength : bytes.length ≤ 4) :
    ((m.pokeAll a bytes).readBytes a bytes.length).toNat = bigEndian bytes := by
  have hbytes : ((List.range bytes.length).map fun i => (m.pokeAll a bytes).peek (a + .ofNat i)) =
      bytes := by
    refine List.ext_getElem (by rw [List.length_map, List.length_range]) fun i _ hi => ?_
    have hbacked : IsBacked size (a + .ofNat i) :=
      isBacked_of_isValid h.ramSize hvalid (Nat.lt_of_lt_of_le hi hn)
    rw [List.getElem_map, List.getElem_range, (h.pokeAll a bytes).peek, if_pos hbacked,
      latest_storesFrom (Nat.le_trans hlength (by decide)) hi]
  rw [toNat_readBytes _ _ hlength, hbytes]

end Memory

open Memory

theorem bytesOf_word (value : UInt16) :
    bytesOf 2 value.toNat = [(value >>> 8).toUInt8, value.toUInt8] := by
  have hhigh : value.toNat / 256 = (value >>> 8).toNat := by
    rw [UInt16.toNat_shiftRight]
    exact (Nat.shiftRight_eq_div_pow value.toNat 8).symm
  rw [bytesOf, bytesOf, bytesOf, hhigh, UInt8.ofNat_uInt16ToNat, UInt8.ofNat_uInt16ToNat]
  rfl

theorem bytesOf_long (value : UInt32) :
    bytesOf 4 value.toNat = [(value >>> 24).toUInt8, (value >>> 16).toUInt8,
      (value >>> 8).toUInt8, value.toUInt8] := by
  have hshift : ∀ shift : UInt32, shift.toNat < 32 →
      value.toNat / 2 ^ shift.toNat = (value >>> shift).toNat := by
    intro shift hshift
    rw [UInt32.toNat_shiftRight, Nat.mod_eq_of_lt hshift, Nat.shiftRight_eq_div_pow]
  have h8 : value.toNat / 256 = (value >>> 8).toNat := hshift 8 (by decide)
  have h16 : value.toNat / 256 / 256 = (value >>> 16).toNat := by
    rw [Nat.div_div_eq_div_mul]
    exact hshift 16 (by decide)
  have h24 : value.toNat / 256 / 256 / 256 = (value >>> 24).toNat := by
    rw [Nat.div_div_eq_div_mul, Nat.div_div_eq_div_mul]
    exact hshift 24 (by decide)
  rw [bytesOf, bytesOf, bytesOf, bytesOf, bytesOf, h24, h16, h8]
  simp only [UInt8.ofNat_uInt32ToNat]
  rfl

namespace Machine

inductive Write
  | byte (address : UInt32) (value : UInt8)
  | word (address : UInt32) (value : UInt16)
  | long (address : UInt32) (value : UInt32)
  | load (address : UInt32) (bytes : List UInt8)

namespace Write

/-- The machine after a write, also after one that failed. -/
def apply (m : Machine) : Write → Machine
  | .byte address value => m.poke address value
  | .word address value => m.writeWord address value
  | .long address value => m.writeLong address value
  | .load address bytes =>
    match (Memory.load address bytes).run m.memory with
    | .ok _ memory => { m with memory }
    | .error _ memory => { m with memory }

def stores (size : Nat) : Write → List (UInt32 × UInt8)
  | .byte address value => [(address, value)]
  | .word address value => storesFrom address (bytesOf 2 value.toNat)
  | .long address value => storesFrom address (bytesOf 4 value.toNat)
  | .load address bytes =>
    if address.toNat + bytes.length ≤ min size ioStart then storesFrom address bytes else []

end Write

def written (size : Nat) (writes : List Write) : Machine :=
  writes.foldl Write.apply (.ofRam size)

variable {m : Machine} {size n : Nat} {a : UInt32} {bytes : List UInt8}
  {stores : List (UInt32 × UInt8)}

theorem writeWord_eq (m : Machine) (address : UInt32) (value : UInt16) :
    m.writeWord address value = m.pokeAll address (bytesOf 2 value.toNat) := by
  rw [bytesOf_word, writeWord]

theorem writeLong_eq (m : Machine) (address : UInt32) (value : UInt32) :
    m.writeLong address value = m.pokeAll address (bytesOf 4 value.toNat) := by
  rw [bytesOf_long, writeLong]

theorem load_eq (h : m.memory.ramSize = min size ioStart) (address : UInt32) (bytes : List UInt8) :
    m.load address bytes =
      if address.toNat + bytes.length ≤ min size ioStart then .ok (m.pokeAll address bytes)
      else .error ⟨address, bytes.length, min size ioStart⟩ := by
  rw [load, run_load, h]
  by_cases hfits : address.toNat + bytes.length ≤ min size ioStart
  · rw [if_pos hfits, if_pos hfits]
    rfl
  · rw [if_neg hfits, if_neg hfits]

theorem apply_load (h : m.memory.ramSize = min size ioStart) (address : UInt32)
    (bytes : List UInt8) : (Write.load address bytes).apply m =
      if address.toNat + bytes.length ≤ min size ioStart then m.pokeAll address bytes else m := by
  rw [Write.apply, run_load, h]
  by_cases hfits : address.toNat + bytes.length ≤ min size ioStart
  · rw [if_pos hfits, if_pos hfits]
    rfl
  · rw [if_neg hfits, if_neg hfits]

theorem holds_apply (h : m.memory.Holds size stores) (w : Write) :
    (w.apply m).memory.Holds size (stores ++ w.stores size) := by
  cases w with
  | byte address value => exact h.poke address value
  | word address value =>
    rw [Write.apply, writeWord_eq]
    exact h.pokeAll address _
  | long address value =>
    rw [Write.apply, writeLong_eq]
    exact h.pokeAll address _
  | load address bytes =>
    rw [apply_load h.ramSize, Write.stores]
    split
    · exact h.pokeAll address bytes
    · rw [List.append_nil]
      exact h

theorem holds_written (size : Nat) (writes : List Write) :
    (written size writes).memory.Holds size (writes.flatMap (Write.stores size)) := by
  induction writes using List.reverseRecOn with
  | nil => exact holds_ofRam size
  | append_singleton writes w ih =>
    rw [written, List.foldl_append, List.flatMap_append, List.flatMap_singleton]
    exact holds_apply ih w

theorem readMemory_writeWord (h : m.memory.Holds size stores) (hvalid : m.memory.isValid a n = true)
    (hn : 2 ≤ n) (value : UInt16) :
    (m.writeWord a value).readMemory a none .word = value.toUInt32 := by
  have hread := h.readBytes_pokeAll hvalid (bytesOf 2 value.toNat)
  rw [length_bytesOf, bigEndian_bytesOf value.toNat_lt] at hread
  rw [← UInt32.toNat_inj, UInt16.toNat_toUInt32, writeWord_eq]
  exact hread hn (by decide)

theorem readMemory_writeLong (h : m.memory.Holds size stores) (hvalid : m.memory.isValid a n = true)
    (hn : 4 ≤ n) (value : UInt32) :
    (m.writeLong a value).readMemory a none .long = value := by
  have hread := h.readBytes_pokeAll hvalid (bytesOf 4 value.toNat)
  rw [length_bytesOf, bigEndian_bytesOf value.toNat_lt] at hread
  rw [← UInt32.toNat_inj, writeLong_eq]
  exact hread hn (by decide)

theorem toNat_readMemory (m : Machine) (address : UInt32) (width : Width) :
    (m.readMemory address none width).toNat =
      bigEndian ((List.range width.size).map fun i => m.memory.peek (address + .ofNat i)) :=
  toNat_readBytes m.memory address (by cases width <;> decide)

/-- After any writes to a new machine, its memory is one of big-endian numbers in cells that the low
24 bits of an address tell apart. A cell holds what was stored there last, if there is one at all
behind the address; more than RAM has is not loaded; and a valid area is one of such cells. -/
theorem memory_written (size : Nat) (writes : List Write) :
    let m := written size writes
    (∀ address, m.memory.peek address =
      if IsBacked size address then latest (writes.flatMap (Write.stores size)) address else 0) ∧
    (∀ address width, (m.readMemory address none width).toNat =
      bigEndian ((List.range width.size).map fun i => m.memory.peek (address + .ofNat i))) ∧
    (∀ address bytes,
      ((∃ next, m.load address bytes = .ok next) ↔
        address.toNat + bytes.length ≤ min size ioStart) ∧
      (¬address.toNat + bytes.length ≤ min size ioStart →
        (Write.load address bytes).apply m = m)) ∧
    ∀ address n, m.memory.isValid address n = true →
      (∀ i < n, IsBacked size (address + .ofNat i)) ∧
      (2 ≤ n → ∀ value : UInt16,
        (m.writeWord address value).readMemory address none .word = value.toUInt32) ∧
      (4 ≤ n → ∀ value : UInt32,
        (m.writeLong address value).readMemory address none .long = value) := by
  intro m
  have hholds := holds_written size writes
  refine ⟨hholds.peek, toNat_readMemory m, fun address bytes => ⟨?_, fun hlarge => ?_⟩,
    fun address n hvalid => ⟨?_, ?_, ?_⟩⟩
  · rw [load_eq hholds.ramSize]
    split
    · rename_i hfit
      exact iff_of_true ⟨_, rfl⟩ hfit
    · rename_i hlarge
      exact iff_of_false (by rintro ⟨_, ⟨⟩⟩) hlarge
  · rw [apply_load hholds.ramSize, if_neg hlarge]
  · exact fun i hi => isBacked_of_isValid hholds.ramSize hvalid hi
  · exact readMemory_writeWord hholds hvalid
  · exact readMemory_writeLong hholds hvalid

theorem memory_written_wrapped :
    let m := written 0x1000 [.long 0xffffffff 0x1020304, .byte 0x2000001 9]
    (m.memory.peek 0x3000000 = 2 ∧ m.memory.peek 1 = 9 ∧ m.memory.peek 0x1000 = 0) ∧
      (m.readMemory 0xffffffff none .long).toNat = 0x1020904 ∧
      (Write.load 0xfff [5, 6]).apply m = m ∧
      m.memory.isValid 0xffff820a 4 = true ∧
      (m.writeWord 0xffff820a 0x7f01).readMemory 0xffff820a none .word = 0x7f01 ∧
      (m.writeLong 0xffff820a 0x1020304).readMemory 0xffff820a none .long = 0x1020304 := by
  intro m
  obtain ⟨hpeek, hread, hload, hvalid⟩ :=
    memory_written 0x1000 [.long 0xffffffff 0x1020304, .byte 0x2000001 9]
  have hbytes : ((List.range Width.long.size).map fun i =>
      m.memory.peek (0xffffffff + .ofNat i)) = [1, 2, 9, 4] :=
    (List.map_congr_left fun i _ => hpeek (0xffffffff + .ofNat i)).trans (by decide)
  have harea : m.memory.isValid 0xffff820a 4 = true := by rfl
  obtain ⟨-, hword, hlong⟩ := hvalid _ _ harea
  refine ⟨⟨?_, ?_, ?_⟩, ?_, (hload _ _).2 (by decide), harea, hword (by decide) _,
    hlong (by decide) _⟩
  · exact (hpeek 0x3000000).trans (by decide)
  · exact (hpeek 1).trans (by decide)
  · exact (hpeek 0x1000).trans (by decide)
  · exact (hread 0xffffffff .long).trans (congrArg bigEndian hbytes)

end Machine

end Monitor

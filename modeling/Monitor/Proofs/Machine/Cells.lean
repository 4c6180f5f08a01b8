import Mathlib.Data.List.Induction
import Monitor.Machine.Memory
import Monitor.Proofs.Bits

namespace Monitor

section BigEndian

def bigEndian (bytes : List UInt8) : Nat :=
  bytes.foldl (fun value byte => value * 256 + byte.toNat) 0

def bytesOf : Nat → Nat → List UInt8
  | 0, _ => []
  | n + 1, value => bytesOf n (value / 256) ++ [.ofNat value]

variable {n : Nat} {bytes : List UInt8}

theorem bigEndian_concat (bytes : List UInt8) (byte : UInt8) :
    bigEndian (bytes ++ [byte]) = bigEndian bytes * 256 + byte.toNat :=
  List.foldl_append

theorem one_shiftLeft_succ (n : Nat) : 1 <<< (8 * (n + 1)) = 1 <<< (8 * n) * 256 := by
  rw [Nat.mul_succ, Nat.shiftLeft_add, Nat.shiftLeft_eq _ 8]

theorem bigEndian_lt (bytes : List UInt8) : bigEndian bytes < 1 <<< (8 * bytes.length) := by
  induction bytes using List.reverseRecOn with
  | nil => exact Nat.one_pos
  | append_singleton bytes byte ih =>
    have hbyte : byte.toNat < 256 := byte.toNat_lt
    rw [bigEndian_concat, List.length_append, List.length_singleton, one_shiftLeft_succ]
    omega

theorem length_bytesOf (n value : Nat) : (bytesOf n value).length = n := by
  induction n generalizing value with
  | zero => rfl
  | succ n ih => rw [bytesOf, List.length_append, ih, List.length_singleton]

theorem bigEndian_bytesOf {value : Nat} (h : value < 1 <<< (8 * n)) :
    bigEndian (bytesOf n value) = value := by
  induction n generalizing value with
  | zero => exact (Nat.lt_one_iff.1 h).symm
  | succ n ih =>
    have hlast : (UInt8.ofNat value).toNat = value % 256 := UInt8.toNat_ofNat'
    rw [one_shiftLeft_succ, Nat.mul_comm] at h
    rw [bytesOf, bigEndian_concat, ih (Nat.div_lt_of_lt_mul h), hlast]
    exact Nat.div_add_mod' value 256

end BigEndian

namespace Memory

variable {m : Memory} {size i n : Nat} {a b : UInt32} {bytes : List UInt8}
  {stores : List (UInt32 × UInt8)}

/-- The number of the cell that an address leads to. -/
def cell (address : UInt32) : Nat :=
  address.toNat % addressSpace

/-- There is a cell of RAM or of the input and output area behind an address. -/
def IsBacked (size : Nat) (address : UInt32) : Prop :=
  cell address < min size ioStart ∨ ioStart ≤ cell address

instance (size : Nat) (address : UInt32) : Decidable (IsBacked size address) :=
  inferInstanceAs (Decidable (_ ∨ _))

theorem toNat_busAddress (address : UInt32) : (busAddress address).toNat = cell address :=
  toNat_and_lowBits address 24

theorem cell_lt (address : UInt32) : cell address < addressSpace :=
  Nat.mod_lt _ (by decide)

/-- The two arrays are one memory: an address leads to a place in one of them. -/
theorem peek_eq (m : Memory) (address : UInt32) : m.peek address =
    (if ioStart ≤ cell address then m.io[cell address - ioStart]?
      else m.ram[cell address]?).getD 0 := by
  rw [peek, toNat_busAddress]

theorem poke_of_io (h : ioStart ≤ cell a) (value : UInt8) :
    (m.poke a value).ram = m.ram ∧
      (m.poke a value).io = m.io.setIfInBounds (cell a - ioStart) value := by
  rw [← toNat_busAddress] at h ⊢
  rw [poke, if_pos h]
  exact ⟨rfl, rfl⟩

theorem poke_of_ram (h : ¬ioStart ≤ cell a) (value : UInt8) :
    (m.poke a value).ram = m.ram.setIfInBounds (cell a) value ∧ (m.poke a value).io = m.io := by
  rw [← toNat_busAddress] at h ⊢
  rw [poke, if_neg h]
  exact ⟨rfl, rfl⟩

/-- A write changes what is read through all addresses of its cell, if there is such a cell. -/
theorem peek_poke (m : Memory) (a b : UInt32) (value : UInt8) : (m.poke a value).peek b =
    if cell a = cell b ∧ IsBacked m.ramSize b then value else m.peek b := by
  have hbacked : IsBacked m.ramSize b ↔ cell b < m.ram.size ∨ ioStart ≤ cell b := by
    rw [IsBacked, ramSize, Nat.min_eq_left m.ram_le]
  have hcell := cell_lt b
  have hsize := m.io_size
  simp only [peek_eq, hbacked]
  by_cases ha : ioStart ≤ cell a
  · rw [(poke_of_io ha value).1, (poke_of_io ha value).2, Array.getElem?_setIfInBounds]
    -- The number itself is not looked at.
    generalize ioStart = start at *
    grind
  · rw [(poke_of_ram ha value).1, (poke_of_ram ha value).2, Array.getElem?_setIfInBounds]
    generalize ioStart = start at *
    grind

theorem cell_add (address : UInt32) (i : Nat) :
    cell (address + .ofNat i) = (address.toNat + i) % addressSpace := by
  rw [cell, addressSpace, UInt32.toNat_add, UInt32.toNat_ofNat']
  omega

/-- The byte that was stored last in the cell of an address, or zero if there was none. -/
def latest (stores : List (UInt32 × UInt8)) (address : UInt32) : UInt8 :=
  ((stores.filter fun store => cell store.1 == cell address).getLast?.map Prod.snd).getD 0

theorem latest_concat (stores : List (UInt32 × UInt8)) (a b : UInt32) (value : UInt8) :
    latest (stores ++ [(a, value)]) b = if cell a = cell b then value else latest stores b := by
  rw [latest, List.filter_append]
  by_cases h : cell a = cell b
  · rw [List.filter_cons, if_pos (beq_iff_eq.2 h), List.filter_nil, List.getLast?_concat, if_pos h]
    rfl
  · rw [List.filter_cons, if_neg (fun heq => h (beq_iff_eq.1 heq)), List.filter_nil,
      List.append_nil, if_neg h, latest]

def storesFrom (address : UInt32) (bytes : List UInt8) : List (UInt32 × UInt8) :=
  bytes.mapIdx fun i byte => (address + .ofNat i, byte)

theorem storesFrom_cons (address : UInt32) (byte : UInt8) (bytes : List UInt8) :
    storesFrom address (byte :: bytes) = (address, byte) :: storesFrom (address + 1) bytes := by
  have hnext : ∀ i, address + .ofNat (i + 1) = address + 1 + .ofNat i := by
    intro i
    rw [UInt32.ofNat_add, UInt32.add_comm (.ofNat i), UInt32.add_assoc]
    rfl
  rw [storesFrom, List.mapIdx_cons, storesFrom]
  simp only [hnext]
  exact congrArg (fun first => (first, byte) :: _) (UInt32.add_zero address)

theorem storesFrom_concat (address : UInt32) (bytes : List UInt8) (byte : UInt8) :
    storesFrom address (bytes ++ [byte]) =
      storesFrom address bytes ++ [(address + .ofNat bytes.length, byte)] :=
  List.mapIdx_concat

/-- The cells of an area are different, so none of its bytes is lost to another. -/
theorem latest_storesFrom (hlength : bytes.length ≤ addressSpace) (hi : i < bytes.length) :
    latest (stores ++ storesFrom a bytes) (a + .ofNat i) = bytes[i] := by
  induction bytes using List.reverseRecOn with
  | nil => cases hi
  | append_singleton bytes byte ih =>
    rw [List.length_append, List.length_singleton] at hlength hi
    rw [storesFrom_concat, ← List.append_assoc, latest_concat, cell_add, cell_add]
    rcases Nat.lt_succ_iff_lt_or_eq.1 hi with hlt | rfl
    · have hne : (a.toNat + bytes.length) % addressSpace ≠ (a.toNat + i) % addressSpace := by
        rw [addressSpace] at hlength ⊢
        omega
      rw [if_neg hne, ih (Nat.le_of_succ_le hlength) hlt, List.getElem_append_left hlt]
    · rw [if_pos rfl, List.getElem_concat_length rfl]

structure Holds (size : Nat) (stores : List (UInt32 × UInt8)) (m : Memory) : Prop where
  ramSize : m.ramSize = min size ioStart
  peek : ∀ address, m.peek address = if IsBacked size address then latest stores address else 0

theorem holds_ofRam (size : Nat) : Holds size [] (ofRam size) where
  ramSize := Array.size_replicate
  peek address := by
    rw [peek_eq, ofRam, Array.getElem?_replicate, Array.getElem?_replicate]
    split <;> split <;> split <;> rfl

theorem isBacked_min : IsBacked (min size ioStart) a ↔ IsBacked size a := by
  rw [IsBacked, IsBacked, Nat.min_assoc, Nat.min_self]

theorem IsBacked.congr (h : IsBacked size a) (hcell : cell a = cell b) : IsBacked size b := by
  rwa [IsBacked, ← hcell]

theorem Holds.poke (h : Holds size stores m) (address : UInt32) (value : UInt8) :
    Holds size (stores ++ [(address, value)]) (m.poke address value) where
  ramSize := (ramSize_poke m address value).trans h.ramSize
  peek other := by
    simp only [peek_poke, h.peek, latest_concat, h.ramSize, isBacked_min]
    by_cases hcell : cell address = cell other <;> by_cases hbacked : IsBacked size other <;>
      simp [hcell, hbacked]

theorem Holds.pokeAll (h : Holds size stores m) (address : UInt32) (bytes : List UInt8) :
    Holds size (stores ++ storesFrom address bytes) (m.pokeAll address bytes) := by
  induction bytes generalizing m stores address with
  | nil =>
    rw [storesFrom, List.mapIdx_nil, List.append_nil]
    exact h
  | cons byte bytes ih =>
    rw [storesFrom_cons, List.append_cons]
    exact ih (h.poke address byte) (address + 1)

section Load

variable {cells : Array UInt8} {start : Nat} {value : UInt8} {values : List UInt8}

theorem getElem?_overwrite (h : start + values.length ≤ cells.size) (i : Nat) :
    (overwrite cells start values)[i]? = if i < start then cells[i]?
      else if i < start + values.length then values[i - start]? else cells[i]? := by
  simp only [overwrite, Array.getElem?_append, Array.getElem?_extract, List.getElem?_toArray,
    Array.size_append, Array.size_extract, List.size_toArray]
  grind

theorem overwrite_nil (h : start ≤ cells.size) : overwrite cells start [] = cells := by
  apply Array.ext_getElem?
  intro i
  rw [getElem?_overwrite h]
  grind

theorem overwrite_cons (h : start + (value :: values).length ≤ cells.size) :
    overwrite (cells.setIfInBounds start value) (start + 1) values =
      overwrite cells start (value :: values) := by
  have hnext : start + 1 + values.length ≤ (cells.setIfInBounds start value).size := by
    rw [Array.size_setIfInBounds]
    rwa [List.length_cons, Nat.add_comm values.length, ← Nat.add_assoc] at h
  apply Array.ext_getElem?
  intro i
  rw [getElem?_overwrite h, getElem?_overwrite hnext, Array.getElem?_setIfInBounds]
  grind

theorem pokeAll_of_fits (h : a.toNat + bytes.length ≤ m.ramSize) :
    (m.pokeAll a bytes).ram = overwrite m.ram a.toNat bytes ∧ (m.pokeAll a bytes).io = m.io := by
  induction bytes generalizing m a with
  | nil => exact ⟨(overwrite_nil h).symm, rfl⟩
  | cons byte bytes ih =>
    have hspace : m.ramSize ≤ 0xff8000 := m.ram_le
    have hlength : (byte :: bytes).length = bytes.length + 1 := rfl
    have hcell : cell a = a.toNat := Nat.mod_eq_of_lt (by rw [addressSpace]; omega)
    have hram : ¬ioStart ≤ cell a := by
      rw [ioStart, hcell]
      omega
    have hnext : (a + 1).toNat = a.toNat + 1 := by
      have hone : (1 : UInt32).toNat = 1 := rfl
      rw [UInt32.toNat_add, hone]
      omega
    obtain ⟨hfirst, hio⟩ := poke_of_ram hram byte
    have hmore : (a + 1).toNat + bytes.length ≤ (m.poke a byte).ramSize := by
      rw [ramSize_poke, hnext]
      omega
    rw [pokeAll, (ih hmore).1, (ih hmore).2, hfirst, hio, hcell, hnext]
    exact ⟨overwrite_cons h, rfl⟩

/-- Bytes are loaded as if they were written one by one, or not at all. -/
theorem run_load (m : Memory) (address : UInt32) (bytes : List UInt8) :
    (load address bytes).run m =
      if address.toNat + bytes.length ≤ m.ramSize then .ok () (m.pokeAll address bytes)
      else .error ⟨address, bytes.length, m.ramSize⟩ m := by
  by_cases h : address.toNat + bytes.length ≤ m.ramSize
  · have hfits : address.toNat + bytes.length ≤ m.ram.size := h
    obtain ⟨hram, hio⟩ := pokeAll_of_fits h
    rw [if_pos h, load, EStateM.run_bind, EStateM.run_get]
    dsimp only
    rw [dif_pos hfits, EStateM.run_set]
    exact congrArg _ (Memory.ext hram.symm hio.symm)
  · have hlarge : ¬address.toNat + bytes.length ≤ m.ram.size := h
    rw [if_neg h, load, EStateM.run_bind, EStateM.run_get]
    dsimp only
    rw [dif_neg hlarge]
    rfl

end Load

theorem toNat_readBytes (m : Memory) (address : UInt32) (hn : n ≤ 4) :
    (m.readBytes address n).toNat =
      bigEndian ((List.range n).map fun i => m.peek (address + .ofNat i)) := by
  induction n with
  | zero => rfl
  | succ n ih =>
    have hlt := bigEndian_lt ((List.range (n + 1)).map fun i => m.peek (address + .ofNat i))
    have hwide : 1 <<< (8 * (n + 1)) ≤ 1 <<< (8 * 4) := by
      rw [Nat.one_shiftLeft, Nat.one_shiftLeft]
      exact Nat.pow_le_pow_right (by decide) (Nat.mul_le_mul_left 8 hn)
    rw [List.length_map, List.length_range] at hlt
    rw [List.range_succ, List.map_append, List.map_singleton, bigEndian_concat] at hlt ⊢
    rw [← ih (Nat.le_of_succ_le hn)] at hlt ⊢
    have h256 : (256 : UInt32).toNat = 256 := rfl
    -- Four bytes have room in 32 bits, so nothing is lost on the way.
    rw [readBytes, UInt32.toNat_add, UInt32.toNat_mul, UInt8.toNat_toUInt32, h256]
    omega

theorem isBacked_of_isValid (hsize : m.ramSize = min size ioStart) (h : m.isValid a n = true)
    (hi : i < n) : IsBacked size (a + .ofNat i) := by
  have hn : max n 1 = n := Nat.max_eq_left (Nat.one_le_of_lt hi)
  have hlow : min size ioStart ≤ addressSpace :=
    Nat.le_trans (Nat.min_le_right _ _) (by decide)
  rw [isValid, toNat_busAddress, hn, hsize] at h
  rw [IsBacked, cell_add, ← Nat.mod_add_mod, ← cell]
  -- An area ends before the address space does, so its cells do not start over.
  split at h
  · have hstop := of_decide_eq_true h
    rw [Nat.mod_eq_of_lt (by omega)]
    omega
  · have hstop := of_decide_eq_true h
    rw [Nat.mod_eq_of_lt (by omega)]
    omega

end Memory

end Monitor

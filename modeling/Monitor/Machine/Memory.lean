import Monitor.Machine.Processor
import Monitor.Text.Digits
import Std.Data.HashMap

namespace Monitor

/-- The first address of the input and output area, which ends with the 24-bit address space. -/
def ioStart : Nat := 0xff8000

def addressSpace : Nat := 0x1000000

/-- The memory of the CPU: RAM from address zero, a gap, and the input and output area. -/
@[ext]
structure Memory where
  ram : Array UInt8
  io : Array UInt8
  ram_le : ram.size ≤ ioStart
  io_size : io.size = addressSpace - ioStart

namespace Memory

def ramSize (m : Memory) : Nat :=
  m.ram.size

/-- Blank memory with as much of the wanted RAM as fits below the input and output area. -/
def ofRam (size : Nat) : Memory where
  ram := .replicate (min size ioStart) 0
  io := .replicate (addressSpace - ioStart) 0
  ram_le := by
    rw [Array.size_replicate]
    exact Nat.min_le_right _ _
  io_size := Array.size_replicate

/-- The address bus has 24 lines. -/
def busAddress (address : UInt32) : UInt32 :=
  address &&& 0xffffff

def peek (m : Memory) (address : UInt32) : UInt8 :=
  let bus := (busAddress address).toNat
  (if ioStart ≤ bus then m.io[bus - ioStart]? else m.ram[bus]?).getD 0

/-- A write outside of RAM and the input and output area is lost. -/
def poke (m : Memory) (address : UInt32) (value : UInt8) : Memory :=
  let bus := (busAddress address).toNat
  if ioStart ≤ bus then
    { m with
      io := m.io.setIfInBounds (bus - ioStart) value
      io_size := Array.size_setIfInBounds.trans m.io_size }
  else
    { m with
      ram := m.ram.setIfInBounds bus value
      ram_le := Nat.le_trans (Nat.le_of_eq Array.size_setIfInBounds) m.ram_le }

def pokeAll (m : Memory) (address : UInt32) : List UInt8 → Memory
  | [] => m
  | value :: values => (m.poke address value).pokeAll (address + 1) values

theorem ramSize_poke (m : Memory) (address : UInt32) (value : UInt8) :
    (m.poke address value).ramSize = m.ramSize := by
  rw [ramSize, ramSize, poke]
  split
  · rfl
  · exact Array.size_setIfInBounds

theorem ramSize_pokeAll (m : Memory) (address : UInt32) (values : List UInt8) :
    (m.pokeAll address values).ramSize = m.ramSize := by
  induction values generalizing m address with
  | nil => rfl
  | cons value values ih => rw [pokeAll, ih, ramSize_poke]

/-- The unsigned number in the `n` cells from an address on, most significant byte first. -/
def readBytes (m : Memory) (address : UInt32) : Nat → UInt32
  | 0 => 0
  | n + 1 => m.readBytes address n * 256 + (m.peek (address + .ofNat n)).toUInt32

def read (m : Memory) (address : UInt32) (width : Width) : UInt32 :=
  m.readBytes address width.size

/-- Whether all of an area is RAM, or all of it input and output area; an empty area counts as one
cell. -/
def isValid (m : Memory) (address : UInt32) (size : Nat) : Bool :=
  let start := (busAddress address).toNat
  let stop := start + max size 1
  if ioStart ≤ start then stop ≤ addressSpace else stop ≤ m.ramSize

structure LoadError where
  address : UInt32
  length : Nat
  ramSize : Nat
  deriving DecidableEq, Repr

def LoadError.message (e : LoadError) : String :=
  let address := Text.hex e.address
  s!"{e.length} bytes at ${address} don't fit into {e.ramSize} bytes of RAM"

def overwrite (cells : Array UInt8) (start : Nat) (values : List UInt8) : Array UInt8 :=
  cells.extract 0 start ++ values.toArray ++ cells.extract (start + values.length) cells.size

theorem size_overwrite {cells : Array UInt8} {start : Nat} {values : List UInt8}
    (h : start + values.length ≤ cells.size) :
    (overwrite cells start values).size = cells.size := by
  simp only [overwrite, Array.size_append, Array.size_extract, List.size_toArray]
  omega

def load (address : UInt32) (bytes : List UInt8) : EStateM LoadError Memory Unit := do
  let m ← get
  if h : address.toNat + bytes.length ≤ m.ram.size then
    set { m with
      ram := overwrite m.ram address.toNat bytes
      ram_le := Nat.le_trans (Nat.le_of_eq (size_overwrite h)) m.ram_le }
  else throw ⟨address, bytes.length, m.ram.size⟩

end Memory

end Monitor

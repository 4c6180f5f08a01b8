import Monitor.Machine.Memory
import Monitor.Machine.Register
import Monitor.Symbol.Table

namespace Monitor

structure Timing where
  cycles : UInt64 := 0
  frameCycles : UInt32 := 0
  lineCycles : UInt32 := 0
  cpuInstructions : UInt32 := 0
  dspInstructions : UInt32 := 0
  deriving DecidableEq, Repr

structure Sections where
  basepage : UInt32 := 0
  text : UInt32 := 0
  textEnd : UInt32 := 0
  data : UInt32 := 0
  bss : UInt32 := 0
  deriving DecidableEq, Repr

/-- All of the machine that the monitor can see. Nothing runs on it: its state changes only when the
monitor or its user changes it. -/
structure Machine where
  memory : Memory
  /-- The member of the CPU family: 0 for a 68000, 2 for a 68020. -/
  level : Nat := 0
  cpuRegisters : Std.HashMap CpuRegister UInt32 := ∅
  dspRegisters : Std.HashMap DspRegister UInt32 := ∅
  dspMemory : Std.HashMap (Space × UInt16) UInt32 := ∅
  /-- Horizontal blank interrupts. -/
  hbl : UInt32 := 0
  /-- Vertical blank interrupts. -/
  vbl : UInt32 := 0
  timing : Timing := {}
  sections : Option Sections := none
  cpuSymbols : Option SymbolTable := none
  dspSymbols : Option SymbolTable := none

namespace Machine

def ofRam (size : Nat) : Machine :=
  { memory := .ofRam size }

def cpuRegister (m : Machine) (r : CpuRegister) : UInt32 :=
  m.cpuRegisters.getD r 0

/-- A register of fewer bits keeps the low ones. -/
def setCpuRegister (m : Machine) (r : CpuRegister) (value : UInt32) : Machine :=
  { m with cpuRegisters := m.cpuRegisters.insert r (value &&& r.mask) }

def dspRegister (m : Machine) (r : DspRegister) : UInt32 :=
  m.dspRegisters.getD r 0 &&& r.mask

def setDspRegister (m : Machine) (r : DspRegister) (value : UInt32) : Machine :=
  { m with dspRegisters := m.dspRegisters.insert r (value &&& r.mask) }

def register (m : Machine) : Register → UInt32
  | .cpu r => m.cpuRegister r
  | .dsp r => m.dspRegister r

def peekDsp (m : Machine) (space : Space) (address : UInt16) : UInt32 :=
  m.dspMemory.getD (space, address) 0

/-- Words of the DSP have 24 bits. -/
def pokeDsp (m : Machine) (space : Space) (address : UInt16) (value : UInt32) : Machine :=
  { m with dspMemory := m.dspMemory.insert (space, address) (value &&& 0xffffff) }

def readMemory (m : Machine) (address : UInt32) (space : Option Space) (width : Width) : UInt32 :=
  match space with
  | some space => m.peekDsp space address.toUInt16
  | none => m.memory.read address width

def poke (m : Machine) (address : UInt32) (value : UInt8) : Machine :=
  { m with memory := m.memory.poke address value }

def pokeAll (m : Machine) (address : UInt32) (values : List UInt8) : Machine :=
  { m with memory := m.memory.pokeAll address values }

def writeWord (m : Machine) (address : UInt32) (value : UInt16) : Machine :=
  m.pokeAll address [(value >>> 8).toUInt8, value.toUInt8]

def writeLong (m : Machine) (address : UInt32) (value : UInt32) : Machine :=
  m.pokeAll address
    [(value >>> 24).toUInt8, (value >>> 16).toUInt8, (value >>> 8).toUInt8, value.toUInt8]

def load (m : Machine) (address : UInt32) (bytes : List UInt8) :
    Except Memory.LoadError Machine :=
  match (Memory.load address bytes).run m.memory with
  | .ok _ memory => .ok { m with memory }
  | .error e _ => .error e

def symbols (m : Machine) : Processor → Option SymbolTable
  | .cpu => m.cpuSymbols
  | .dsp => m.dspSymbols

def setSymbols (m : Machine) (table : SymbolTable) : Processor → Machine
  | .cpu => { m with cpuSymbols := some table }
  | .dsp => { m with dspSymbols := some table }

def symbol? (m : Machine) (processor : Processor) (name : String) (filter : SymbolFilter) :
    Option UInt32 :=
  (m.symbols processor).bind (·.addressOf? name filter)

/-- The machine without what describes it: as a plain 68000 without program and symbols. -/
def bare (m : Machine) : Machine :=
  { m with level := 0, sections := none, cpuSymbols := none, dspSymbols := none }

end Machine

end Monitor

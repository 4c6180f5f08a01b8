import Monitor.Machine.State
import Monitor.Text.Digits

namespace Monitor

inductive Variable
  | aesOpcode
  | basepage
  | biosOpcode
  | bss
  | cpuInstructions
  | cycleCounter
  | data
  | dspInstructions
  | frameCycles
  | gemdosOpcode
  | hbl
  | lineAOpcode
  | lineCycles
  | lineFOpcode
  | osCallParameter
  | pcOnSymbol
  | text
  | textEnd
  | vbl
  | vdiOpcode
  | xbiosOpcode
  deriving DecidableEq, Repr

namespace Variable

def all : List Variable :=
  [.aesOpcode, .basepage, .biosOpcode, .bss, .cpuInstructions, .cycleCounter, .data,
    .dspInstructions, .frameCycles, .gemdosOpcode, .hbl, .lineAOpcode, .lineCycles, .lineFOpcode,
    .osCallParameter, .pcOnSymbol, .text, .textEnd, .vbl, .vdiOpcode, .xbiosOpcode]

def name : Variable → String
  | .aesOpcode => "AesOpcode"
  | .basepage => "Basepage"
  | .biosOpcode => "BiosOpcode"
  | .bss => "BSS"
  | .cpuInstructions => "CpuInstr"
  | .cycleCounter => "CycleCounter"
  | .data => "DATA"
  | .dspInstructions => "DspInstr"
  | .frameCycles => "FrameCycles"
  | .gemdosOpcode => "GemdosOpcode"
  | .hbl => "HBL"
  | .lineAOpcode => "LineAOpcode"
  | .lineCycles => "LineCycles"
  | .lineFOpcode => "LineFOpcode"
  | .osCallParameter => "OsCallParam"
  | .pcOnSymbol => "PConSymbol"
  | .text => "TEXT"
  | .textEnd => "TEXTEnd"
  | .vbl => "VBL"
  | .vdiOpcode => "VdiOpcode"
  | .xbiosOpcode => "XbiosOpcode"

def description : Variable → String
  | .aesOpcode => "$FFFF when not on AES trap"
  | .biosOpcode => "$FFFF when not on BIOS trap"
  | .gemdosOpcode => "$FFFF when not on GEMDOS trap"
  | .vdiOpcode => "$FFFF when not on VDI trap"
  | .xbiosOpcode => "$FFFF when not on XBIOS trap"
  | .lineAOpcode => "$FFFF when not on Line-A opcode"
  | .lineFOpcode => "$FFFF when not on Line-F opcode"
  | .basepage | .bss | .data | .text | .textEnd => "invalid before a program is loaded"
  | .cpuInstructions => "CPU instructions count"
  | .dspInstructions => "DSP instructions count"
  | .cycleCounter => "global cycles counter (lower 32 bits)"
  | .frameCycles => "cycles since VBL"
  | .lineCycles => "cycles since HBL (divisible by 4)"
  | .hbl => "number of HBL interrupts"
  | .vbl => "number of VBL interrupts"
  | .osCallParameter => "valid only on OS call opcode breakpoint"
  | .pcOnSymbol => "1 if PC on symbol, 0 otherwise"

/-- Interrupt counters are read as they are; the other variables are computed from the machine. -/
def isCounter : Variable → Bool
  | .hbl | .vbl => true
  | _ => false

def bits : Variable → Option Nat
  | .hbl | .vbl => some 32
  | .aesOpcode | .biosOpcode | .gemdosOpcode | .vdiOpcode | .xbiosOpcode | .lineAOpcode
  | .lineFOpcode | .osCallParameter | .pcOnSymbol => some 16
  | _ => none

/-- Names are the same up to the case of ASCII letters. -/
def ofName? (name : String) : Option Variable :=
  all.find? (·.name.toLower == name.toLower)

/-- What the opcode variables hold when the CPU is not at a matching call. -/
def noOpcode : UInt32 := 0xffff

def readWord (m : Machine) (address : UInt32) : UInt32 :=
  m.memory.read address .word

def instruction (m : Machine) : UInt32 :=
  readWord m (m.cpuRegister .pc)

def stackPointer (m : Machine) : UInt32 :=
  m.cpuRegister (.address 7)

/-- Line opcodes have the number of their line in the top four bits. -/
def lineOpcode (m : Machine) (line : UInt32) : UInt32 :=
  if instruction m >>> 12 = line then instruction m &&& 0xff else noOpcode

def isTrap (m : Machine) (trap : UInt32) : Bool :=
  instruction m == 0x4e40 + trap

/-- The opcode of these calls is the first word on the stack. -/
def trapOpcode (m : Machine) (trap : UInt32) : UInt32 :=
  if isTrap m trap then readWord m (stackPointer m) else noOpcode

/-- The opcode of these calls is the first word of a control array, which the first long of the
parameter block points to. -/
def controlOpcode (m : Machine) : UInt32 :=
  readWord m (m.memory.read (m.cpuRegister (.data 1)) .long)

/-- The low word of D0 tells which library a call of the graphics trap is for. -/
def graphicsSelector (m : Machine) : UInt32 :=
  m.cpuRegister (.data 0) &&& 0xffff

def aesOpcodeOf (m : Machine) : UInt32 :=
  if isTrap m 2 then
    if graphicsSelector m = 0xc8 then controlOpcode m
    else if graphicsSelector m = 0xc9 then 0x11
    else noOpcode
  else noOpcode

def vdiOpcodeOf (m : Machine) : UInt32 :=
  if isTrap m 2 then
    if graphicsSelector m = 0x73 then controlOpcode m
    else if graphicsSelector m = 0xfffe then 0xfffe
    else noOpcode
  else noOpcode

def isOnSymbol (m : Machine) : Bool :=
  ((m.symbols .cpu).bind (·.nameAt? (m.cpuRegister .pc) .text)).isSome

def read (m : Machine) : Variable → UInt32
  | .aesOpcode => aesOpcodeOf m
  | .basepage => (m.sections.getD {}).basepage
  | .biosOpcode => trapOpcode m 13
  | .bss => (m.sections.getD {}).bss
  | .cpuInstructions => m.timing.cpuInstructions
  | .cycleCounter => m.timing.cycles.toUInt32
  | .data => (m.sections.getD {}).data
  | .dspInstructions => m.timing.dspInstructions
  | .frameCycles => m.timing.frameCycles
  | .gemdosOpcode => trapOpcode m 1
  | .hbl => m.hbl
  | .lineAOpcode => lineOpcode m 0xa
  | .lineCycles => m.timing.lineCycles
  | .lineFOpcode => lineOpcode m 0xf
  | .osCallParameter => readWord m (stackPointer m + 2)
  | .pcOnSymbol => if isOnSymbol m then 1 else 0
  | .text => (m.sections.getD {}).text
  | .textEnd => (m.sections.getD {}).textEnd
  | .vbl => m.vbl
  | .vdiOpcode => vdiOpcodeOf m
  | .xbiosOpcode => trapOpcode m 14

open Text

def hexText (m : Machine) (v : Variable) : String :=
  let digits := (hex (v.read m)).toUpper
  if v.bits = some 16 then "    $" ++ padLeft 4 '0' digits else "$" ++ padLeft 8 '0' digits

def line (m : Machine) (v : Variable) : String :=
  let width := ((all.map (·.name.length)).max?).getD 0
  let name := padLeft width ' ' v.name
  let value := hexText m v
  let number := (v.read m).toInt32.toInt
  let signed := padRight 12 s!"({number})"
  s!" {name}: {value} {signed} {v.description}\n"

def listing (m : Machine) : String :=
  "Debugger builtin symbols and their values are:\n" ++ String.join (all.map (line m)) ++
    "Some of the variables are valid only in specific situations.\n"

end Variable

end Monitor

import Monitor.Machine.Processor

namespace Monitor

/-- The registers of the 68000 family. The virtual ones belong to the monitor alone. -/
inductive CpuRegister
  | data (n : Fin 8)
  | address (n : Fin 8)
  | virtual (n : Fin 8)
  | pc
  | sr
  | isp
  | usp
  | caar
  | cacr
  | dfc
  | msp
  | sfc
  | vbr
  deriving DecidableEq, Repr, Hashable

namespace CpuRegister

def name : CpuRegister → String
  | .data n => s!"D{n}"
  | .address n => s!"A{n}"
  | .virtual n => s!"V{n}"
  | .pc => "PC"
  | .sr => "SR"
  | .isp => "ISP"
  | .usp => "USP"
  | .caar => "CAAR"
  | .cacr => "CACR"
  | .dfc => "DFC"
  | .msp => "MSP"
  | .sfc => "SFC"
  | .vbr => "VBR"

def bits : CpuRegister → Nat
  | .sr => 16
  | _ => 32

def mask (r : CpuRegister) : UInt32 :=
  lowBits r.bits

/-- The control registers that the 68020 added. -/
def controls : List CpuRegister :=
  [.caar, .cacr, .dfc, .msp, .sfc, .vbr]

def all (level : Nat) : List CpuRegister :=
  (List.finRange 8).map data ++ (List.finRange 8).map address ++ [.pc, .sr, .isp, .usp] ++
    if 2 ≤ level then controls else []

def named (level : Nat) : List CpuRegister :=
  all level ++ (List.finRange 8).map virtual

def ofName? (name : String) (level : Nat) : Option CpuRegister :=
  (named level).find? (·.name == name.toUpper)

end CpuRegister

inductive DspRegister
  | a0
  | a1
  | a2
  | b0
  | b1
  | b2
  | la
  | lc
  | modifier (n : Fin 8)
  | offset (n : Fin 8)
  | omr
  | pc
  | address (n : Fin 8)
  | sp
  | sr
  | ssh
  | ssl
  | x0
  | x1
  | y0
  | y1
  deriving DecidableEq, Repr, Hashable

namespace DspRegister

def name : DspRegister → String
  | .a0 => "A0"
  | .a1 => "A1"
  | .a2 => "A2"
  | .b0 => "B0"
  | .b1 => "B1"
  | .b2 => "B2"
  | .la => "LA"
  | .lc => "LC"
  | .modifier n => s!"M{n}"
  | .offset n => s!"N{n}"
  | .omr => "OMR"
  | .pc => "PC"
  | .address n => s!"R{n}"
  | .sp => "SP"
  | .sr => "SR"
  | .ssh => "SSH"
  | .ssl => "SSL"
  | .x0 => "X0"
  | .x1 => "X1"
  | .y0 => "Y0"
  | .y1 => "Y1"

def mask : DspRegister → UInt32
  | .a0 | .a1 | .b0 | .b1 | .x0 | .x1 | .y0 | .y1 => 0xffffff
  | .a2 | .b2 => 0xff
  | .omr => 0x5f
  | .sp => 0x3f
  | .sr => 0xefff
  | _ => 0xffff

/-- Only the address registers can point into memory. -/
def isAddress : DspRegister → Bool
  | .address _ => true
  | _ => false

def all : List DspRegister :=
  [.a0, .a1, .a2, .b0, .b1, .b2, .la, .lc] ++ (List.finRange 8).map modifier ++
    (List.finRange 8).map offset ++ [.omr, .pc] ++ (List.finRange 8).map address ++
    [.sp, .sr, .ssh, .ssl, .x0, .x1, .y0, .y1]

def ofName? (name : String) : Option DspRegister :=
  all.find? (·.name == name.toUpper)

end DspRegister

inductive Register
  | cpu (r : CpuRegister)
  | dsp (r : DspRegister)
  deriving DecidableEq, Repr

def Register.name : Register → String
  | .cpu r => r.name
  | .dsp r => r.name

end Monitor

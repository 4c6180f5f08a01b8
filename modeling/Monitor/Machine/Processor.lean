namespace Monitor

inductive Processor
  | cpu
  | dsp
  deriving DecidableEq, Repr, Hashable

def Processor.name : Processor → String
  | .cpu => "CPU"
  | .dsp => "DSP"

inductive Space
  | p
  | x
  | y
  deriving DecidableEq, Repr, Hashable

namespace Space

def letter : Space → Char
  | .p => 'p'
  | .x => 'x'
  | .y => 'y'

def ofLetter? : Char → Option Space
  | 'p' => some .p
  | 'x' => some .x
  | 'y' => some .y
  | _ => none

end Space

inductive Width
  | byte
  | word
  | long
  deriving DecidableEq, Repr

namespace Width

def size : Width → Nat
  | .byte => 1
  | .word => 2
  | .long => 4

def bits (w : Width) : Nat :=
  8 * w.size

def ofLetter? : Char → Option Width
  | 'b' => some .byte
  | 'w' => some .word
  | 'l' => some .long
  | _ => none

def ofBits? : Nat → Option Width
  | 8 => some .byte
  | 16 => some .word
  | 32 => some .long
  | _ => none

end Width

def lowBits (bits : Nat) : UInt32 :=
  if 32 ≤ bits then 0xffffffff else .ofNat (1 <<< bits - 1)

end Monitor

import Monitor.Text.Digits

namespace Monitor

open Text

structure Invocation where
  radix : Nat := 10
  dspEnabled : Bool := true
  /-- The size of the RAM in KiB. -/
  ram : Nat := 4096
  /-- The files that are loaded, each with an address if one follows an at sign. -/
  loads : List String := []
  cpuSymbols : Option String := none
  dspSymbols : Option String := none
  verbosity : Nat := 0
  script : Option String := none
  deriving DecidableEq, Repr

namespace Invocation

/-- Arguments as far as they are read. What may be given only once is absent until it is given. -/
structure Draft where
  radix : Option Nat := none
  noDsp : Bool := false
  ram : Option Nat := none
  loads : List String := []
  cpuSymbols : Option String := none
  dspSymbols : Option String := none
  verbosity : Nat := 0
  script : Option String := none
  deriving DecidableEq, Repr

def Draft.finish (d : Draft) : Invocation where
  radix := d.radix.getD 10
  dspEnabled := !d.noDsp
  ram := d.ram.getD 4096
  loads := d.loads
  cpuSymbols := d.cpuSymbols
  dspSymbols := d.dspSymbols
  verbosity := d.verbosity
  script := d.script

def readDigits? (limit : Nat) (cs : List Char) : Option Nat :=
  if !cs.isEmpty && cs.all isAsciiDigit && ofDigits 10 cs < limit then some (ofDigits 10 cs)
  else none

/-- A size may have a plus sign. -/
def readSize? (value : String) : Option Nat :=
  match value.toList with
  | '+' :: cs => readDigits? UInt64.size cs
  | cs => readDigits? UInt64.size cs

/-- A radix may have a sign, as long as it is not negative. -/
def readRadix? (value : String) : Option Nat :=
  match value.toList with
  | '+' :: cs => readDigits? UInt32.size cs
  | '-' :: cs => readDigits? 1 cs
  | cs => readDigits? UInt32.size cs

def readPath? (value : String) : Option String :=
  if value.isEmpty then none else some value

def once {α : Type} (old new : Option α) : Option (Option α) :=
  match old, new with
  | none, some a => some (some a)
  | _, _ => none

inductive Setting
  | radix
  | ram
  | load
  | cpuSymbols
  | dspSymbols
  deriving DecidableEq, Repr

def Setting.ofName? : String → Option Setting
  | "--base" => some .radix
  | "--ram" => some .ram
  | "--load" => some .load
  | "--symbols" => some .cpuSymbols
  | "--dsp-symbols" => some .dspSymbols
  | _ => none

def Draft.set? (d : Draft) (value : String) : Setting → Option Draft
  | .radix => return { d with radix := ← once d.radix (readRadix? value) }
  | .ram => return { d with ram := ← once d.ram (readSize? value) }
  | .load => return { d with loads := d.loads ++ [value] }
  | .cpuSymbols => return { d with cpuSymbols := ← once d.cpuSymbols (readPath? value) }
  | .dspSymbols => return { d with dspSymbols := ← once d.dspSymbols (readPath? value) }

def Draft.setScript? (d : Draft) (value : String) : Option Draft :=
  return { d with script := ← once d.script (readPath? value) }

def Draft.setFlag? (d : Draft) (flag : String) : Option Draft :=
  if flag = "--no-dsp" then if d.noDsp then none else some { d with noDsp := true }
  else if flag = "--verbose" then some { d with verbosity := d.verbosity + 1 }
  else
    match flag.toList with
    | '-' :: letters =>
      if !letters.isEmpty && letters.all (· == 'v') then
        some { d with verbosity := d.verbosity + letters.length }
      else none
    | _ => none

/-- A single minus sign is no option. -/
def looksLikeOption (arg : String) : Bool :=
  arg.startsWith "-" && arg != "-"

def splitValue? (arg : String) : Option (String × String) :=
  let cs := arg.toList
  match cs.dropWhile (· != '=') with
  | _ :: value => some (String.ofList (cs.takeWhile (· != '=')), String.ofList value)
  | [] => none

def readScripts (d : Draft) : List String → Option Draft
  | [] => some d
  | arg :: more => do readScripts (← d.setScript? arg) more

/-- Reads arguments. After two minus signs there are no more options. -/
def readFrom (d : Draft) : List String → Option Draft
  | [] => some d
  | "--" :: more => readScripts d more
  | arg :: more =>
    if !looksLikeOption arg then do readFrom (← d.setScript? arg) more
    else
      match Setting.ofName? arg, more with
      | some setting, value :: more =>
        if looksLikeOption value then none else do readFrom (← d.set? value setting) more
      | some _, [] => none
      | none, more =>
        match splitValue? arg with
        | some (name, value) => do readFrom (← d.set? value (← Setting.ofName? name)) more
        | none => do readFrom (← d.setFlag? arg) more

def read? (args : List String) : Option Invocation :=
  (readFrom {} args).map Draft.finish

end Invocation

end Monitor

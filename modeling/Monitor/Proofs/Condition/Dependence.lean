import Monitor.Condition.Parsed

namespace Monitor

variable {m m' : Machine} {p : Processor} {radix : Radix}

/-- Machines on which words stand for the same things and the same addresses are in memory. -/
structure Machine.Alike (m m' : Machine) : Prop where
  level : m.level = m'.level
  symbols (p : Processor) : m.symbols p = m'.symbols p
  isValid (address : UInt32) (size : Nat) :
    m.memory.isValid address size = m'.memory.isValid address size

namespace Machine.Alike

theorem refl (m : Machine) : m.Alike m :=
  ⟨rfl, fun _ => rfl, fun _ _ => rfl⟩

theorem symm (h : m.Alike m') : m'.Alike m :=
  ⟨h.level.symm, fun p => (h.symbols p).symm, fun address size => (h.isValid address size).symm⟩

theorem trans {m'' : Machine} (h : m.Alike m') (h' : m'.Alike m'') : m.Alike m'' :=
  ⟨h.level.trans h'.level, fun p => (h.symbols p).trans (h'.symbols p),
    fun address size => (h.isValid address size).trans (h'.isValid address size)⟩

theorem of_ramSize (hlevel : m.level = m'.level) (hsymbols : ∀ p, m.symbols p = m'.symbols p)
    (hsize : m.memory.ramSize = m'.memory.ramSize) : m.Alike m' := by
  refine ⟨hlevel, hsymbols, fun address size => ?_⟩
  rw [Memory.isValid, Memory.isValid, hsize]

theorem setCpuRegister (m : Machine) (r : CpuRegister) (value : UInt32) :
    m.Alike (m.setCpuRegister r value) :=
  of_ramSize rfl (fun p => by cases p <;> rfl) rfl

theorem setDspRegister (m : Machine) (r : DspRegister) (value : UInt32) :
    m.Alike (m.setDspRegister r value) :=
  of_ramSize rfl (fun p => by cases p <;> rfl) rfl

theorem pokeAll (m : Machine) (address : UInt32) (values : List UInt8) :
    m.Alike (m.pokeAll address values) :=
  of_ramSize rfl (fun p => by cases p <;> rfl) (Memory.ramSize_pokeAll _ _ _).symm

variable (h : m.Alike m')

include h

theorem register? (name : String) :
    (⟨m, p, radix⟩ : Scope).register? name = (⟨m', p, radix⟩ : Scope).register? name := by
  rw [Scope.register?, Scope.register?, h.level]

theorem symbol? (name : String) (filter : SymbolFilter) :
    (⟨m, p, radix⟩ : Scope).symbol? name filter = (⟨m', p, radix⟩ : Scope).symbol? name filter := by
  rw [Scope.symbol?, Scope.symbol?, Machine.symbol?, Machine.symbol?, h.symbols]

end Machine.Alike

namespace Condition

namespace Written

section

variable (h : m.Alike m')

include h

theorem ofRegister?_congr (indirect : Bool) (name : String) :
    ofRegister? ⟨m, p, radix⟩ indirect name = ofRegister? ⟨m', p, radix⟩ indirect name := by
  rw [ofRegister?, ofRegister?, h.register?]
  rfl

theorem ofSymbol?_congr (indirect : Bool) (name : String) :
    ofSymbol? ⟨m, p, radix⟩ indirect name = ofSymbol? ⟨m', p, radix⟩ indirect name := by
  rw [ofSymbol?, ofSymbol?, h.symbol?]
  rfl

theorem ofName?_congr (indirect : Bool) (name : String) :
    ofName? ⟨m, p, radix⟩ indirect name = ofName? ⟨m', p, radix⟩ indirect name := by
  rw [ofName?, ofName?, ofRegister?_congr h, ofSymbol?_congr h]
  rfl

theorem ofWord_congr (indirect : Bool) (index : Nat) (letters : List Char) :
    ofWord ⟨m, p, radix⟩ indirect index letters = ofWord ⟨m', p, radix⟩ indirect index letters := by
  rw [ofWord, ofWord, ofName?_congr h]
  rfl

theorem checkAddress_congr (index : Nat) (w : Written) :
    checkAddress ⟨m, p, radix⟩ index w = checkAddress ⟨m', p, radix⟩ index w := by
  have hvalid (address : UInt32) :
      isValidAddress ⟨m, p, radix⟩ address = isValidAddress ⟨m', p, radix⟩ address := by
    rw [isValidAddress, isValidAddress, h.isValid]
  simp only [checkAddress, hvalid]

theorem ofToken_congr (indirect : Bool) (index : Nat) (t : Token) :
    ofToken ⟨m, p, radix⟩ indirect index t = ofToken ⟨m', p, radix⟩ indirect index t := by
  cases t with
  | word letters => simp only [ofToken, ofWord_congr h, checkAddress_congr h]
  | _ => rfl

theorem readSource_congr (cursor : Cursor) :
    readSource ⟨m, p, radix⟩ cursor = readSource ⟨m', p, radix⟩ cursor := by
  unfold readSource
  simp only [ofToken_congr h]

theorem read_congr (cursor : Cursor) :
    read ⟨m, p, radix⟩ cursor = read ⟨m', p, radix⟩ cursor := by
  rw [read, read, readSource_congr h]
  rfl

end

end Written

variable (h : m.Alike m')

include h

theorem readOne_congr (cursor : Cursor) :
    readOne ⟨m, p, radix⟩ cursor = readOne ⟨m', p, radix⟩ cursor := by
  simp only [readOne, Written.read_congr h]

theorem readJoined_congr (joints : Nat) (cursor : Cursor) :
    readJoined ⟨m, p, radix⟩ joints cursor = readJoined ⟨m', p, radix⟩ joints cursor := by
  induction joints generalizing cursor with
  | zero => simp only [readJoined, readOne_congr h]
  | succ joints ih => simp only [readJoined, readOne_congr h, ih]

/-- What is read from a text, and what is logged meanwhile, depends on nothing that changes while
the machine runs. -/
theorem parse_congr (text : String) :
    parse ⟨m, p, radix⟩ text = parse ⟨m', p, radix⟩ text := by
  simp only [parse, ofTokens, readJoined_congr h]

end Condition

end Monitor

import Monitor.Symbol.Basic

namespace Monitor

/-- Symbols in two orders. Equal names keep the order they were given in, equal addresses the order
of their names. -/
structure SymbolTable where
  byName : List Symbol
  byAddress : List Symbol

namespace SymbolTable

def ofList (symbols : List Symbol) : SymbolTable :=
  let byName := symbols.mergeSort fun a b => a.name ≤ b.name
  ⟨byName, byName.mergeSort fun a b => a.address ≤ b.address⟩

def size (t : SymbolTable) : Nat :=
  t.byName.length

def addressOf? (t : SymbolTable) (name : String) (filter : SymbolFilter) : Option UInt32 :=
  let sameName := (t.byName.dropWhile (·.name < name)).takeWhile (·.name == name)
  (sameName.find? fun s => filter.accepts s.kind).map (·.address)

/-- The least name of a symbol at an address, of those with an accepted kind. -/
def nameAt? (t : SymbolTable) (address : UInt32) (filter : SymbolFilter) : Option String :=
  let sameAddress := (t.byAddress.dropWhile (·.address < address)).takeWhile (·.address == address)
  (sameAddress.find? fun s => filter.accepts s.kind).map (·.name)

end SymbolTable

end Monitor

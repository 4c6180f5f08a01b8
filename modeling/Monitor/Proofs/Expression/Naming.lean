import Mathlib.Data.List.TakeWhile
import Monitor.Expression.Operand
import Monitor.Symbol.Listing

namespace Monitor

open Text

section Letters

variable {c : Char}

theorem toNat_toLower (c : Char) :
    c.toLower.toNat = if 65 ≤ c.toNat ∧ c.toNat ≤ 90 then c.toNat + 32 else c.toNat := by
  have hiff : c.val ≥ 'A'.val ∧ c.val ≤ 'Z'.val ↔ 65 ≤ c.toNat ∧ c.toNat ≤ 90 :=
    and_congr UInt32.le_iff_toNat_le UInt32.le_iff_toNat_le
  unfold Char.toLower
  split
  · rename_i h
    have hbound := hiff.1 h
    have hshift : ('a'.val - 'A'.val).toNat = 32 := rfl
    rw [if_pos hbound, Char.toNat, UInt32.toNat_add, hshift]
    exact Nat.mod_eq_of_lt (by change c.toNat + 32 < _; omega)
  · rename_i h
    rw [if_neg (mt hiff.2 h)]

theorem toNat_toUpper (c : Char) :
    c.toUpper.toNat = if 97 ≤ c.toNat ∧ c.toNat ≤ 122 then c.toNat - 32 else c.toNat := by
  have hiff : 'a'.val ≤ c.val ∧ c.val ≤ 'z'.val ↔ 97 ≤ c.toNat ∧ c.toNat ≤ 122 :=
    and_congr UInt32.le_iff_toNat_le UInt32.le_iff_toNat_le
  unfold Char.toUpper
  split
  · rename_i h
    have hbound := hiff.1 h
    have hshift : ('A'.val - 'a'.val).toNat = 4294967264 := rfl
    rw [if_pos hbound, Char.toNat, UInt32.toNat_add, hshift]
    change (c.toNat + 4294967264) % 4294967296 = _
    omega
  · rename_i h
    rw [if_neg (mt hiff.2 h)]

theorem toLower_toUpper (c : Char) : c.toUpper.toLower = c.toLower := by
  have htoNat : c.toUpper.toLower.toNat = c.toLower.toNat := by
    rw [toNat_toLower, toNat_toUpper, toNat_toLower]
    repeat' split
    all_goals omega
  exact Char.ext (UInt32.toNat_inj.1 htoNat)

theorem isAsciiLetter_iff : isAsciiLetter c = true ↔
    97 ≤ c.toNat ∧ c.toNat ≤ 122 ∨ 65 ≤ c.toNat ∧ c.toNat ≤ 90 := by
  simp only [isAsciiLetter, Bool.or_eq_true, Bool.and_eq_true, decide_eq_true_eq]
  exact or_congr (and_congr UInt32.le_iff_toNat_le UInt32.le_iff_toNat_le)
    (and_congr UInt32.le_iff_toNat_le UInt32.le_iff_toNat_le)

theorem isAsciiDigit_iff : isAsciiDigit c = true ↔ 48 ≤ c.toNat ∧ c.toNat ≤ 57 := by
  simp only [isAsciiDigit, Bool.and_eq_true, decide_eq_true_eq]
  exact and_congr UInt32.le_iff_toNat_le UInt32.le_iff_toNat_le

theorem isAsciiLetter_toLower (c : Char) : isAsciiLetter c.toLower = isAsciiLetter c := by
  rw [Bool.eq_iff_iff, isAsciiLetter_iff, isAsciiLetter_iff, toNat_toLower]
  split <;> omega

theorem isAsciiLetter_toUpper (c : Char) : isAsciiLetter c.toUpper = isAsciiLetter c := by
  rw [Bool.eq_iff_iff, isAsciiLetter_iff, isAsciiLetter_iff, toNat_toUpper]
  split <;> omega

theorem isAsciiDigit_toLower (c : Char) : isAsciiDigit c.toLower = isAsciiDigit c := by
  rw [Bool.eq_iff_iff, isAsciiDigit_iff, isAsciiDigit_iff, toNat_toLower]
  split <;> omega

theorem isAsciiDigit_toUpper (c : Char) : isAsciiDigit c.toUpper = isAsciiDigit c := by
  rw [Bool.eq_iff_iff, isAsciiDigit_iff, isAsciiDigit_iff, toNat_toUpper]
  split <;> omega

end Letters

def isLettered (cs : List Char) : Bool :=
  cs.head?.any isAsciiLetter && cs.all fun c => isAsciiLetter c || isAsciiDigit c

theorem isLettered_map {f : Char → Char} (hletter : ∀ c, isAsciiLetter (f c) = isAsciiLetter c)
    (hdigit : ∀ c, isAsciiDigit (f c) = isAsciiDigit c) (cs : List Char) :
    isLettered (cs.map f) = isLettered cs := by
  cases cs with
  | nil => rfl
  | cons c cs => simp [isLettered, hletter, hdigit, Function.comp_def]

theorem name_of_isLettered {cs : List Char} (h : isLettered cs = true) :
    cs.all Symbol.isNameChar = true ∧ cs.head?.any isAsciiDigit = false := by
  rw [isLettered, Bool.and_eq_true] at h
  obtain ⟨hhead, hall⟩ := h
  constructor
  · rw [List.all_eq_true] at hall ⊢
    intro c hc
    rw [Symbol.isNameChar, hall c hc]
    rfl
  · cases cs with
    | nil => rfl
    | cons c cs =>
      have hletter := isAsciiLetter_iff.1 hhead
      have hdigit : ¬isAsciiDigit c = true := by
        rw [isAsciiDigit_iff]
        omega
      exact Bool.eq_false_iff.2 hdigit

theorem toList_toLower (s : String) : s.toLower.toList = s.toList.map Char.toLower :=
  String.toList_map

theorem toList_toUpper (s : String) : s.toUpper.toList = s.toList.map Char.toUpper :=
  String.toList_map

theorem isLettered_toLower (s : String) : isLettered s.toLower.toList = isLettered s.toList := by
  rw [toList_toLower]
  exact isLettered_map isAsciiLetter_toLower isAsciiDigit_toLower _

theorem isLettered_toUpper (s : String) : isLettered s.toUpper.toList = isLettered s.toList := by
  rw [toList_toUpper]
  exact isLettered_map isAsciiLetter_toUpper isAsciiDigit_toUpper _

theorem toLower_toUpper_string (s : String) : s.toUpper.toLower = s.toLower := by
  apply String.toList_inj.1
  rw [toList_toLower, toList_toLower, toList_toUpper, List.map_map]
  exact List.map_congr_left fun c _ => toLower_toUpper c

namespace Variable

theorem isLettered_name (v : Variable) : isLettered v.name.toList = true := by
  cases v <;> decide +kernel

theorem isLettered_of_ofName? {name : String} {v : Variable} (h : ofName? name = some v) :
    isLettered name.toList = true := by
  have hname : v.name.toLower = name.toLower := by simpa using List.find?_some h
  rw [← isLettered_toLower, ← hname, isLettered_toLower]
  exact isLettered_name v

theorem ofName?_toUpper (name : String) : ofName? name.toUpper = ofName? name := by
  rw [ofName?, ofName?, toLower_toUpper_string]

end Variable

namespace CpuRegister

theorem isLettered_name (r : CpuRegister) : isLettered r.name.toList = true := by
  cases r with
  | data n | address n | virtual n =>
    revert n
    decide +kernel
  | _ => decide +kernel

theorem toUpper_of_ofName? {name : String} {level : Nat} {r : CpuRegister}
    (h : ofName? name level = some r) : r.name = name.toUpper := by
  simpa using List.find?_some h

theorem lower_ne_variable (r : CpuRegister) : ∀ v ∈ Variable.all,
    v.name.toList.map Char.toLower ≠ r.name.toList.map Char.toLower := by
  cases r with
  | data n | address n | virtual n =>
    revert n
    decide +kernel
  | _ => decide +kernel

theorem ofName?_variable (r : CpuRegister) : Variable.ofName? r.name = none := by
  refine List.find?_eq_none.2 fun v hv hname => lower_ne_variable r v hv ?_
  rw [← String.toList_map, ← String.toList_map]
  exact congrArg String.toList (beq_iff_eq.1 hname)

end CpuRegister

namespace DspRegister

theorem isLettered_name (r : DspRegister) : isLettered r.name.toList = true := by
  cases r with
  | modifier n | offset n | address n =>
    revert n
    decide +kernel
  | _ => decide +kernel

theorem toUpper_of_ofName? {name : String} {r : DspRegister} (h : ofName? name = some r) :
    r.name = name.toUpper := by
  simpa using List.find?_some h

end DspRegister

namespace Symbol

variable {number : Nat} {line : List Char} {s : Symbol}

theorem isName_of_readLine (h : (readLine number line).value = some s) :
    isName s.name.toList = true := by
  unfold readLine at h
  split at h
  · cases h
  · split at h
    · cases h
    · unfold readFields at h
      repeat' split at h
      all_goals try cases h
      rename_i hname
      rw [String.toList_ofList]
      exact hname
    · cases h

theorem isName_of_readLines {lines : List (List Char)} (h : s ∈ (readLines number lines).value) :
    isName s.name.toList = true := by
  induction lines generalizing number with
  | nil => cases h
  | cons line more ih =>
    rw [readLines, Logged.value_bind, Logged.value_bind, Logged.value_pure, List.mem_append] at h
    obtain h | h := h
    · exact isName_of_readLine (Option.mem_toList.1 h)
    · exact ih h

end Symbol

namespace SymbolTable

theorem isName_of_ofListing {text : String} {s : Symbol} (h : s ∈ (ofListing text).value.byName) :
    Symbol.isName s.name.toList = true :=
  Symbol.isName_of_readLines (List.mem_mergeSort.1 h)

theorem exists_of_addressOf? {t : SymbolTable} {name : String} {filter : SymbolFilter}
    {address : UInt32} (h : t.addressOf? name filter = some address) :
    ∃ s ∈ t.byName, s.name = name := by
  obtain ⟨s, hfind, _⟩ := Option.map_eq_some_iff.1 h
  have hmem := List.mem_of_find?_eq_some hfind
  have hname := List.mem_takeWhile_imp hmem
  refine ⟨s, ?_, beq_iff_eq.1 hname⟩
  exact (List.dropWhile_sublist _).mem ((List.takeWhile_sublist _).mem hmem)

end SymbolTable

namespace Scope

variable {scope : Scope} {name : String} {value : UInt32}

/-- The symbols of a scope come from a listing, and none of their names starts with a digit. -/
def HasListedSymbols (scope : Scope) : Prop :=
  ∀ table, scope.machine.symbols scope.processor = some table →
    (∃ text, table = (SymbolTable.ofListing text).value) ∧
      ∀ s ∈ table.byName, s.name.toList.head?.any isAsciiDigit = false

theorem isLettered_of_register? {r : Register} (h : scope.register? name = some r) :
    isLettered name.toList = true := by
  rw [register?] at h
  split at h
  · obtain ⟨r, hr, _⟩ := Option.map_eq_some_iff.1 h
    rw [← isLettered_toUpper, ← CpuRegister.toUpper_of_ofName? hr]
    exact r.isLettered_name
  · obtain ⟨r, hr, _⟩ := Option.map_eq_some_iff.1 h
    rw [← isLettered_toUpper, ← DspRegister.toUpper_of_ofName? hr]
    exact r.isLettered_name

theorem exists_of_symbol? {filter : SymbolFilter} (h : scope.symbol? name filter = some value) :
    ∃ table s, scope.machine.symbols scope.processor = some table ∧ s ∈ table.byName ∧
      s.name = name := by
  obtain ⟨table, htable, haddress⟩ := Option.bind_eq_some_iff.1 h
  obtain ⟨s, hs, hname⟩ := SymbolTable.exists_of_addressOf? haddress
  exact ⟨table, s, htable, hs, hname⟩

theorem name_of_valueOf? (hlisted : scope.HasListedSymbols) (h : scope.valueOf? name = some value) :
    name.toList.all Symbol.isNameChar = true ∧ name.toList.head?.any isAsciiDigit = false := by
  rw [valueOf?] at h
  cases hvariable : Variable.ofName? name with
  | some v => exact name_of_isLettered (Variable.isLettered_of_ofName? hvariable)
  | none =>
    cases hregister : scope.register? name with
    | some r => exact name_of_isLettered (isLettered_of_register? hregister)
    | none =>
      rw [hvariable, hregister] at h
      obtain ⟨table, s, htable, hs, rfl⟩ := exists_of_symbol? h
      obtain ⟨⟨text, rfl⟩, hdigit⟩ := hlisted table htable
      have hname := SymbolTable.isName_of_ofListing hs
      rw [Symbol.isName, Bool.and_eq_true] at hname
      exact ⟨hname.2, hdigit s hs⟩

end Scope

end Monitor

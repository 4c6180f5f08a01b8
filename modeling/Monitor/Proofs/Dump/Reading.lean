import Mathlib.Data.List.Basic
import Monitor.Proofs.Dump.Writing
import Monitor.Proofs.Numeral.Writing
import Monitor.Proofs.Text

namespace Monitor

namespace Text

variable {width : Nat} {n : UInt32} {c : Char}

theorem toList_hexWide (width : Nat) (n : UInt32) : (hexWide width n).toList =
    List.replicate (width - (Nat.toDigits 16 n.toNat).length) '0' ++ Nat.toDigits 16 n.toNat := by
  rw [hexWide, padLeft, repeated, String.toList_append, String.toList_ofList,
    ← String.length_toList, toList_hex]

theorem length_hexWide (h : (Nat.toDigits 16 n.toNat).length ≤ width) :
    (hexWide width n).toList.length = width := by
  rw [toList_hexWide, List.length_append, List.length_replicate]
  exact Nat.sub_add_cancel h

theorem ofDigits_hexWide (width : Nat) (n : UInt32) :
    ofDigits 16 (hexWide width n).toList = n.toNat := by
  rw [toList_hexWide, ofDigits_zeros_append (by decide),
    ofDigits_toDigits (by decide) (by decide)]

theorem isDigit_of_mem_hexWide (h : c ∈ (hexWide width n).toList) : isDigit 16 c = true := by
  rw [toList_hexWide] at h
  rcases List.mem_append.1 h with hzero | hdigit
  · rw [List.eq_of_mem_replicate hzero]
    decide
  · exact isDigit_of_mem_toDigits (by decide) (by decide) hdigit

theorem isLine_of_forall {line : List Char} (h : ∀ c ∈ line, c ≠ '\n' ∧ c ≠ '\r') :
    IsLine line where
  newline := fun hmem => (h _ hmem).1 rfl
  last := fun hlast => (h _ (List.mem_of_getLast? hlast)).2 rfl

end Text

namespace Dump

open Text

/-- Reads bytes that are shown from an address on, each as two digits behind a blank, up to two
blanks. -/
def readCells (address : Nat) : List Char → List (Nat × Nat)
  | ' ' :: high :: low :: more =>
    if high = ' ' then [] else (address, ofDigits 16 [high, low]) :: readCells (address + 1) more
  | _ => []

/-- Reads the bytes that a line shows, each with the address where it is. The line begins with eight
digits, which are the address of the first of them, and a colon. -/
def readLine (cs : List Char) : List (Nat × Nat) :=
  readCells (ofDigits 16 (cs.take 8)) (cs.drop 9)

def cells (m : Machine) (address count : Nat) : List (Nat × Nat) :=
  (List.range' address count).map fun a => (a, (m.memory.peek (.ofNat a)).toNat)

variable {m : Machine} {address count : Nat}

theorem toList_cell (byte : UInt8) :
    (cell byte).toList = ' ' :: (hexWide 2 byte.toUInt32).toList := by
  rw [cell, String.toList_append]
  rfl

theorem exists_digits (byte : UInt8) : ∃ high low, (cell byte).toList = [' ', high, low] ∧
    high ≠ ' ' ∧ ofDigits 16 [high, low] = byte.toNat := by
  have hlength : (hexWide 2 byte.toUInt32).toList.length = 2 :=
    length_hexWide ((Nat.length_toDigits_le_iff (by decide) (by decide)).2 byte.toNat_lt)
  obtain ⟨high, low, hdigits⟩ := List.length_eq_two.1 hlength
  have hvalue := ofDigits_hexWide 2 byte.toUInt32
  have hdigit : isDigit 16 high = true :=
    isDigit_of_mem_hexWide (hdigits ▸ List.mem_cons_self : high ∈ (hexWide 2 byte.toUInt32).toList)
  rw [hdigits] at hvalue
  refine ⟨high, low, ?_, ?_, hvalue⟩
  · rw [toList_cell, hdigits]
  · rintro rfl
    exact absurd hdigit (by decide)

theorem readCells_shown (m : Machine) (address count : Nat) (glyphs : List Char) :
    readCells address ((String.join ((bytes m (.ofNat address) count).map cell)).toList ++
      ' ' :: ' ' :: glyphs) = cells m address count := by
  induction count generalizing address with
  | zero =>
    cases glyphs with
    | nil => rfl
    | cons c glyphs => rfl
  | succ count ih =>
    have hnext : UInt32.ofNat address + 1 = .ofNat (address + 1) :=
      (UInt32.ofNat_add address 1).symm
    obtain ⟨high, low, hcell, hhigh, hvalue⟩ := exists_digits (m.memory.peek (.ofNat address))
    rw [bytes, hnext, List.map_cons, String.join_cons, String.toList_append, hcell]
    simp only [List.cons_append, List.nil_append]
    rw [readCells, if_neg hhigh, ih, hvalue]
    rfl

theorem cells_append (m : Machine) (address count more : Nat) :
    cells m address count ++ cells m (address + count) more = cells m address (count + more) := by
  rw [cells, cells, cells, ← List.map_append, List.range'_append_1]

theorem length_cells : (cells m address count).length = count := by
  rw [cells, List.length_map, List.length_range']

def lineText (m : Machine) (start : UInt32) (count : Nat) : List Char :=
  (hexWide 8 start).toList ++ ':' :: ((String.join ((bytes m start count).map cell)).toList ++
    ' ' :: ' ' :: (bytes m start count).map glyph)

theorem toList_line (m : Machine) (start : UInt32) (count : Nat) :
    (line m start count).toList = lineText m start count ++ ['\n'] := by
  have hmarks : ":".toList = [':'] ∧ "  ".toList = [' ', ' '] ∧ "\n".toList = ['\n'] :=
    ⟨rfl, rfl, rfl⟩
  rw [line_eq, lineText]
  simp only [String.toList_append, hmarks, String.toList_ofList, List.append_assoc,
    List.cons_append, List.nil_append]

theorem glyph_plain (byte : UInt8) : glyph byte ≠ '\n' ∧ glyph byte ≠ '\r' := by
  have hall : ∀ n < 256, glyph (.ofNat n) ≠ '\n' ∧ glyph (.ofNat n) ≠ '\r' := by decide +kernel
  have hbyte := hall byte.toNat byte.toNat_lt
  rwa [UInt8.ofNat_toNat] at hbyte

theorem isLine_lineText (m : Machine) (start : UInt32) (count : Nat) :
    IsLine (lineText m start count) := by
  have hdigit : ∀ c, isDigit 16 c = true → c ≠ '\n' ∧ c ≠ '\r' := by
    intro c hc
    refine ⟨?_, ?_⟩
    · rintro rfl
      exact absurd hc (by decide)
    · rintro rfl
      exact absurd hc (by decide)
  refine isLine_of_forall ?_
  rw [lineText, String.toList_join]
  simp only [List.forall_mem_append, List.forall_mem_cons, List.forall_mem_flatMap,
    List.forall_mem_map, toList_cell]
  refine ⟨?_, by decide, fun byte _ => ⟨by decide, ?_⟩, by decide, by decide,
    fun byte _ => glyph_plain byte⟩
  · exact fun c hc => hdigit c (isDigit_of_mem_hexWide hc)
  · exact fun c hc => hdigit c (isDigit_of_mem_hexWide hc)

theorem readLine_lineText (haddress : address < UInt32.size) (m : Machine) (count : Nat) :
    readLine (lineText m (.ofNat address) count) = cells m address count := by
  have hlength : (hexWide 8 (.ofNat address)).toList.length = 8 :=
    length_hexWide ((Nat.length_toDigits_le_iff (by decide) (by decide)).2
      (UInt32.ofNat address).toNat_lt)
  have hstart : ofDigits 16 (hexWide 8 (.ofNat address)).toList = address :=
    (ofDigits_hexWide 8 _).trans (UInt32.toNat_ofNat_of_lt' haddress)
  have hcells : (lineText m (.ofNat address) count).drop 9 =
      (String.join ((bytes m (.ofNat address) count).map cell)).toList ++
        ' ' :: ' ' :: (bytes m (.ofNat address) count).map glyph := by
    rw [lineText, ← List.drop_drop (i := 1) (j := 8), List.drop_left' hlength]
    rfl
  rw [readLine, hcells, lineText, List.take_left' hlength, hstart, readCells_shown]

/-- Lines show so many bytes from an address on, each once and in order. Only the last line may have
fewer than sixteen. -/
structure Shows (m : Machine) (address count : Nat) (lines : List (List Char)) : Prop where
  bytes : lines.flatMap readLine = cells m address count
  room : ∀ line ∈ lines, 0 < (readLine line).length ∧ (readLine line).length ≤ lineLength
  full : ∀ line ∈ lines.dropLast, (readLine line).length = lineLength

theorem shows_singleton (haddress : address < UInt32.size) (hsome : 0 < count)
    (hfew : count ≤ lineLength) :
    Shows m address count [lineText m (.ofNat address) count] where
  bytes := by rw [List.flatMap_singleton, readLine_lineText haddress]
  room := by
    rw [List.forall_mem_singleton, readLine_lineText haddress, length_cells]
    exact ⟨hsome, hfew⟩
  full := List.forall_mem_nil _

theorem Shows.cons {lines : List (List Char)} (h : Shows m (address + lineLength) (count + 1) lines)
    (haddress : address < UInt32.size) :
    Shows m address (lineLength + (count + 1))
      (lineText m (.ofNat address) lineLength :: lines) := by
  have hne : lines ≠ [] := by
    rintro rfl
    have hlength := congrArg List.length h.bytes
    rw [length_cells] at hlength
    exact Nat.succ_ne_zero count hlength.symm
  have hline : readLine (lineText m (.ofNat address) lineLength) = cells m address lineLength :=
    readLine_lineText haddress m lineLength
  constructor
  · rw [List.flatMap_cons, hline, h.bytes, cells_append]
  · refine List.forall_mem_cons.2 ⟨?_, h.room⟩
    rw [hline, length_cells]
    exact ⟨by decide, Nat.le_refl _⟩
  · rw [List.dropLast_cons_of_ne_nil hne]
    refine List.forall_mem_cons.2 ⟨?_, h.full⟩
    rw [hline, length_cells]

theorem exists_shows (hcount : address + (count + 1) ≤ UInt32.size) :
    ∃ shown, (∀ line ∈ shown, IsLine line) ∧ Shows m address (count + 1) shown ∧
      (lines m (.ofNat address) (count + 1)).flatMap String.toList =
        shown.flatMap (· ++ ['\n']) := by
  induction count using Nat.strongRecOn generalizing address with
  | ind count ih =>
    rw [lines]
    by_cases hfew : count + 1 ≤ lineLength
    · refine ⟨[lineText m (.ofNat address) (count + 1)], ?_,
        shows_singleton (by omega) (Nat.succ_pos count) hfew, ?_⟩
      · exact List.forall_mem_singleton.2 (isLine_lineText ..)
      · rw [if_pos hfew, List.flatMap_singleton, List.flatMap_singleton, toList_line]
    · have hmany : 16 < count + 1 := Nat.lt_of_not_le hfew
      have hroom : address + 16 + (count - 16 + 1) ≤ UInt32.size := by omega
      obtain ⟨shown, hlines, hshows, htext⟩ := ih (count - 16) (by omega) hroom
      have hnext : UInt32.ofNat address + 16 = .ofNat (address + 16) :=
        (UInt32.ofNat_add address 16).symm
      have hleft : count + 1 - lineLength = count - 16 + 1 := Nat.sub_add_comm (by omega)
      have hall : lineLength + (count - 16 + 1) = count + 1 := by
        rw [lineLength]
        omega
      refine ⟨lineText m (.ofNat address) lineLength :: shown, ?_, ?_, ?_⟩
      · exact List.forall_mem_cons.2 ⟨isLine_lineText .., hlines⟩
      · exact hall ▸ hshows.cons (by omega)
      · rw [if_neg hfew, hnext, hleft, List.flatMap_cons, List.flatMap_cons, htext, toList_line]

/-- A dump shows all bytes from its start to its end. -/
theorem shows_text (m : Machine) {first last : UInt32} (h : first ≤ last) :
    Shows m first.toNat (last.toNat + 1 - first.toNat) (Text.lines (text m first last).toList) := by
  rw [UInt32.le_iff_toNat_le] at h
  have hroom : first.toNat + (last.toNat - first.toNat + 1) ≤ UInt32.size := by
    have hlast := last.toNat_lt_size
    omega
  obtain ⟨shown, hlines, hshows, htext⟩ := exists_shows (m := m) hroom
  rw [UInt32.ofNat_toNat] at htext
  rw [text, String.toList_join, htext, lines_flatMap hlines, Nat.sub_add_comm h]
  exact hshows

end Dump

end Monitor

import Monitor.Dump

namespace Monitor.Dump

open Text

def addSaturating (a b : UInt32) : UInt32 :=
  .ofNat (min (a.toNat + b.toNat) (UInt32.size - 1))

def addChecked? (a b : UInt32) : Option UInt32 :=
  if a.toNat + b.toNat < UInt32.size then some (a + b) else none

/-- A dump that is being written byte by byte, in the arithmetic of addresses. -/
structure Writing where
  text : String
  glyphs : String
  next : UInt32
  lineEnd : UInt32

inductive Turn
  | goesOn (w : Writing)
  | ends (text : String)
  | overflows

def beginLine (last start : UInt32) (text : String) : Turn :=
  .goesOn {
    text := text ++ hexWide 8 start ++ ":"
    glyphs := ""
    next := start
    lineEnd := min last (addSaturating start 15) }

/-- After a line the dump is over, or another line is begun at the next address. -/
def endLine (last lineEnd : UInt32) (text : String) : Turn :=
  if last ≤ lineEnd then .ends text
  else
    match addChecked? lineEnd 1 with
    | none => .overflows
    | some start => beginLine last start text

def cell (byte : UInt8) : String :=
  " " ++ hexWide 2 byte.toUInt32

namespace Writing

def turn (m : Machine) (last : UInt32) (w : Writing) : Turn :=
  let byte := m.memory.peek w.next
  let text := w.text ++ cell byte
  let glyphs := w.glyphs.push (glyph byte)
  if w.next = w.lineEnd then endLine last w.lineEnd (text ++ "  " ++ glyphs ++ "\n")
  else .goesOn { w with text, glyphs, next := w.next + 1 }

def closed (m : Machine) (w : Writing) (count : Nat) : String :=
  let shown := bytes m w.next count
  w.text ++ String.join (shown.map cell) ++ "  " ++ w.glyphs ++ String.ofList (shown.map glyph) ++
    "\n"

end Writing

/-- Turn by turn, a dump comes to its end with a text. If a sum overflows, it never does. -/
inductive Turn.Finishes (m : Machine) (last : UInt32) : Turn → String → Prop
  | ends (text : String) : Finishes m last (.ends text) text
  | goesOn {w : Writing} {text : String} (h : (w.turn m last).Finishes m last text) :
    Finishes m last (.goesOn w) text

variable {m : Machine} {w : Writing} {start first last : UInt32}
  {before written : String} {left count : Nat}

theorem line_eq (m : Machine) (start : UInt32) (count : Nat) : line m start count =
    hexWide 8 start ++ ":" ++ String.join ((bytes m start count).map cell) ++ "  " ++
      String.ofList ((bytes m start count).map glyph) ++ "\n" :=
  rfl

theorem toNat_add_of_lt {a b : UInt32} (h : a.toNat + b.toNat < UInt32.size) :
    (a + b).toNat = a.toNat + b.toNat := by
  rw [UInt32.toNat_add]
  exact Nat.mod_eq_of_lt h

theorem toNat_min (a b : UInt32) : (min a b).toNat = min a.toNat b.toNat := by
  change (if a ≤ b then a else b).toNat = _
  split
  · rename_i hle
    exact (Nat.min_eq_left (UInt32.le_iff_toNat_le.1 hle)).symm
  · rename_i hlt
    rw [UInt32.le_iff_toNat_le] at hlt
    exact (Nat.min_eq_right (Nat.le_of_not_le hlt)).symm

theorem toNat_addSaturating (a b : UInt32) :
    (addSaturating a b).toNat = min (a.toNat + b.toNat) (UInt32.size - 1) :=
  UInt32.toNat_ofNat_of_lt' (Nat.lt_of_le_of_lt (Nat.min_le_right ..) (by decide))

theorem toNat_lineEnd (start last : UInt32) :
    (min last (addSaturating start 15)).toNat = min last.toNat (start.toNat + 15) := by
  have hlast := last.toNat_lt_size
  have hfifteen : (15 : UInt32).toNat = 15 := rfl
  rw [toNat_min, toNat_addSaturating, hfifteen]
  omega

/-- A line that is not the last one ends before the last address, so there is one after it. -/
theorem endLine_of_lt {lineEnd : UInt32} (h : lineEnd < last) (text : String) :
    endLine last lineEnd text = beginLine last (lineEnd + 1) text := by
  rw [UInt32.lt_iff_toNat_lt] at h
  have hroom : lineEnd.toNat + (1 : UInt32).toNat < UInt32.size :=
    Nat.lt_of_le_of_lt h last.toNat_lt_size
  rw [endLine, if_neg (by rw [UInt32.le_iff_toNat_le]; omega), addChecked?, if_pos hroom]

theorem endLine_of_le {lineEnd : UInt32} (h : last ≤ lineEnd) (text : String) :
    endLine last lineEnd text = .ends text :=
  if_pos h

namespace Writing

theorem closed_one (w : Writing) : w.closed m 1 = w.text ++ cell (m.memory.peek w.next) ++ "  " ++
    w.glyphs.push (glyph (m.memory.peek w.next)) ++ "\n" := by
  rw [closed, bytes, bytes]
  simp only [List.map_cons, List.map_nil, String.join_cons, String.join_nil, String.ofList_cons,
    String.ofList_nil, String.push_eq_append, String.append_assoc, String.append_empty]

theorem closed_succ (w : Writing) (n : Nat) :
    w.closed m (n + 1) =
      closed m { w with
        text := w.text ++ cell (m.memory.peek w.next)
        glyphs := w.glyphs.push (glyph (m.memory.peek w.next))
        next := w.next + 1 } n := by
  rw [closed, bytes, closed]
  simp only [List.map_cons, String.join_cons, String.ofList_cons, String.push_eq_append,
    String.append_assoc]

theorem finishes_line (hleft : w.next.toNat + left = w.lineEnd.toNat)
    (h : (endLine last w.lineEnd (w.closed m (left + 1))).Finishes m last written) :
    Turn.Finishes m last (.goesOn w) written := by
  induction left generalizing w with
  | zero =>
    have hend : w.next = w.lineEnd := UInt32.toNat_inj.1 hleft
    refine .goesOn ?_
    rw [turn, if_pos hend]
    rwa [closed_one] at h
  | succ left ih =>
    have hbefore : w.next ≠ w.lineEnd := by
      intro heq
      rw [heq] at hleft
      omega
    have hroom : w.next.toNat + 1 < UInt32.size :=
      Nat.lt_of_le_of_lt (by omega) w.lineEnd.toNat_lt_size
    have hnext : (w.next + 1).toNat = w.next.toNat + 1 := toNat_add_of_lt hroom
    refine .goesOn ?_
    rw [turn, if_neg hbefore]
    refine ih ?_ ?_
    · dsimp only
      omega
    · rwa [closed_succ] at h

theorem closed_begin (before : String) (start lineEnd : UInt32) (count : Nat) :
    closed m ⟨before ++ hexWide 8 start ++ ":", "", start, lineEnd⟩ count =
      before ++ line m start count := by
  rw [closed, line_eq]
  simp only [String.append_assoc, String.empty_append]

end Writing

theorem finishes_beginLine (hcount : start.toNat + count = min last.toNat (start.toNat + 15))
    (h : (endLine last (min last (addSaturating start 15))
      (before ++ line m start (count + 1))).Finishes m last written) :
    (beginLine last start before).Finishes m last written := by
  refine Writing.finishes_line (hcount.trans (toNat_lineEnd start last).symm) ?_
  rwa [Writing.closed_begin]

theorem finishes_lastLine (hcount : start.toNat + count = last.toNat) (hfew : count ≤ 15)
    (before : String) :
    (beginLine last start before).Finishes m last (before ++ line m start (count + 1)) := by
  have hend : last ≤ min last (addSaturating start 15) := by
    rw [UInt32.le_iff_toNat_le, toNat_lineEnd]
    omega
  have hline : start.toNat + count = min last.toNat (start.toNat + 15) := by omega
  refine finishes_beginLine hline ?_
  rw [endLine_of_le hend]
  exact .ends _

theorem finishes_fullLine (hmany : start.toNat + 15 < last.toNat)
    (h : (beginLine last (start + 16) (before ++ line m start 16)).Finishes m last written) :
    (beginLine last start before).Finishes m last written := by
  have hfifteen : (start + 15).toNat = start.toNat + 15 :=
    toNat_add_of_lt (Nat.lt_trans hmany last.toNat_lt_size)
  have hend : min last (addSaturating start 15) = start + 15 := by
    rw [← UInt32.toNat_inj, toNat_lineEnd, hfifteen, Nat.min_eq_right (Nat.le_of_lt hmany)]
  have hlt : start + 15 < last := by
    rw [UInt32.lt_iff_toNat_lt, hfifteen]
    exact hmany
  have hnext : start + 15 + 1 = start + 16 := UInt32.add_assoc ..
  refine finishes_beginLine (Nat.min_eq_right (Nat.le_of_lt hmany)).symm ?_
  rwa [hend, endLine_of_lt hlt, hnext]

theorem finishes_lines (hcount : first.toNat + count = last.toNat) (before : String) :
    (beginLine last first before).Finishes m last
      (before ++ String.join (lines m first (count + 1))) := by
  induction count using Nat.strongRecOn generalizing first before with
  | ind count ih =>
    -- After a full line the rest is a shorter dump, which begins with what has been written.
    rw [lines, lineLength]
    by_cases hfew : count + 1 ≤ 16
    · rw [if_pos hfew, String.join_cons, String.join_nil, String.append_empty]
      exact finishes_lastLine hcount (by omega) before
    · rw [if_neg hfew, String.join_cons, ← String.append_assoc]
      have hroom : first.toNat + 16 < UInt32.size :=
        Nat.lt_of_le_of_lt (by omega) last.toNat_lt_size
      have hnext : (first + 16).toNat = first.toNat + 16 := toNat_add_of_lt hroom
      have hleft : count + 1 - 16 = count - 16 + 1 := by omega
      refine finishes_fullLine (by omega) ?_
      rw [hleft]
      exact ih (count - 16) (by omega) (by omega) _

/-- A dump is written to its end if that is not before its start, and it never leaves the address
space on the way. -/
theorem finishes_text (m : Machine) (h : first ≤ last) :
    (beginLine last first "").Finishes m last (text m first last) := by
  have hcount : first.toNat + (last.toNat - first.toNat) = last.toNat :=
    Nat.add_sub_cancel' (UInt32.le_iff_toNat_le.1 h)
  have hlines := finishes_lines (m := m) hcount ""
  rwa [String.empty_append] at hlines

end Monitor.Dump

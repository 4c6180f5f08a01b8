import Mathlib.Control.Monad.Basic
import Monitor.Proofs.Breakpoint.Adding
import Monitor.Proofs.Condition.Tracking

namespace Monitor

open Attempt

variable {b : Breakpoint} {m : Machine} {place : Nat} {c : Condition} {kept : UInt32}

namespace Breakpoint

/-- The machines on which the condition at a place is evaluated while a breakpoint is tested on one
machine after the other, with whether it holds. All conditions before it have to hold for that. -/
def evaluations (place : Nat) : Breakpoint → List Machine → List (Machine × Bool)
  | _, [] => []
  | b, m :: later =>
    let more := evaluations place (b.test m).value.2 later
    match b.conditions[place]? with
    | some c =>
      if (Condition.testAll m (b.conditions.take place)).value.1 then
        (m, (c.test m).value.1) :: more
      else more
    | none => more

theorem evaluations_cons (h : b.conditions[place]? = some c) (later : List Machine) :
    b.evaluations place (m :: later) =
      if (Condition.testAll m (b.conditions.take place)).value.1 then
        (m, (c.test m).value.1) :: (b.test m).value.2.evaluations place later
      else (b.test m).value.2.evaluations place later := by
  rw [evaluations, h]

theorem conditions_test_getElem? (h : b.conditions[place]? = some c) :
    (b.test m).value.2.conditions[place]? =
      some (if (Condition.testAll m (b.conditions.take place)).value.1 then (c.test m).value.2
        else c) := by
  rw [test, Logged.value_bind, Logged.value_pure, Condition.testAll_getElem?, h, Option.map_some,
    Condition.testAll_fst, Condition.value_test]
  cases (b.conditions.take place).all (·.holds m) with
  | false => simp
  | true => cases c.holds m <;> simp

/-- A condition that compares a value with itself compares it with the value kept from the
evaluations so far. -/
theorem holds_of_evaluations (h : c.left = c.right) (hmask : kept &&& c.left.mask = kept)
    (hb : b.conditions[place]? = some (c.keeping kept)) (ms : List Machine) {k : Nat} {held : Bool}
    (hk : (b.evaluations place ms)[k]? = some (m, held)) :
    held = c.comparison.holds (c.left.read m) (c.comparison.record kept
      (((b.evaluations place ms).take k).map fun e => c.left.read e.1)) := by
  -- All that is kept lies within the mask, so that masking it once more does no harm.
  induction ms generalizing b kept k with
  | nil => simp [evaluations] at hk
  | cons now later ih =>
    have hnext := conditions_test_getElem? (m := now) hb
    rw [evaluations_cons hb, Condition.value_test_keeping now h hmask] at hk ⊢
    rw [Condition.value_test_keeping now h hmask] at hnext
    by_cases hprior : (Condition.testAll now (b.conditions.take place)).value.1 = true
    · rw [if_pos hprior] at hk hnext ⊢
      cases k with
      | zero =>
        cases hk
        rfl
      | succ k => exact ih (Condition.note_and_mask now hmask) hnext hk
    · rw [if_neg hprior] at hk hnext ⊢
      exact ih hmask hnext hk

end Breakpoint

namespace BreakpointList

variable {l next : BreakpointList} {text : String} {options : Breakpoint.Options}
  {first : Machine} {radix : Radix} {index k : Nat} {parsed : Condition.Parsed} {held : Bool}

/-- In a breakpoint that has been added, a condition that compares a value with itself holds when
the value stands out from the one it was added with and those of its earlier evaluations. -/
theorem held_iff_standsOut (ms : List Machine)
    (hparse : result (Condition.parse ⟨first, l.processor, radix⟩ text) = .ok parsed)
    (hadd : result (l.add text options first radix) = .ok (index, next))
    (hb : next.get? index = some b) (hc : parsed.conditions[place]? = some c)
    (hself : c.left = c.right) (hk : (b.evaluations place ms)[k]? = some (m, held)) :
    held = true ↔ c.comparison.StandsOut (c.left.read first)
      (((b.evaluations place ms).take k).map fun e => c.left.read e.1) (c.left.read m) := by
  obtain ⟨_, hparse', rfl, rfl⟩ := add_eq_ok.1 hadd
  cases hparse.symm.trans hparse'
  cases hb.symm.trans (get?_append_size _)
  have htracks := Condition.tracks_of_parse hparse c (List.mem_of_getElem? hc)
  have hplace : (newItem first options parsed).conditions[place]? =
      some (c.keeping (c.left.read first)) := by
    rw [newItem, List.getElem?_map, hc, Option.map_some,
      Condition.freeze_eq_keeping first hself htracks]
  rw [Breakpoint.holds_of_evaluations hself (Condition.read_and_mask first c.left) hplace ms hk,
    Comparison.holds_record]

def counting (vbl hbl : UInt32) : Machine :=
  { Machine.ofRam 16 with vbl, hbl }

def growing : Condition.Parsed where
  text := "VBL > 0 && HBL & f > HBL & f"
  conditions :=
    [{  left := ⟨.variable .vbl, false, none, 32, 0xffffffff⟩
        comparison := .greater
        right := ⟨.literal 0, false, none, 32, 0xffffffff⟩ },
      { left := ⟨.variable .hbl, false, none, 32, 0xf⟩
        comparison := .greater
        right := ⟨.variable .hbl, false, none, 32, 0xf⟩ }]

theorem parse_growing :
    result (Condition.parse ⟨counting 1 0x25, .cpu, .hexadecimal⟩ growing.text) = .ok growing := by
  decide +kernel

theorem held_iff_standsOut_growing :
    (newItem (counting 1 0x25) {} growing).evaluations 1
        [counting 1 0x17, counting 0 0x3f, counting 1 0x46, counting 1 0x18] =
      [(counting 1 0x17, true), (counting 1 0x46, false), (counting 1 0x18, true)] ∧
    Comparison.StandsOut .greater 5 [7, 6] 8 := by
  refine ⟨rfl, ?_⟩
  have hadd : result (add { processor := .cpu } growing.text {} (counting 1 0x25) .hexadecimal) =
      .ok (1, append { processor := .cpu } (newItem (counting 1 0x25) {} growing)) :=
    add_eq_ok.2 ⟨growing, parse_growing, rfl, rfl⟩
  have hc : growing.conditions[1]? = some growing.conditions[1] := rfl
  have hk : ((newItem (counting 1 0x25) {} growing).evaluations 1
      [counting 1 0x17, counting 0 0x3f, counting 1 0x46, counting 1 0x18])[2]? =
        some (counting 1 0x18, true) := rfl
  exact (held_iff_standsOut (l := { processor := .cpu }) _ parse_growing hadd rfl hc rfl hk).1 rfl

end BreakpointList

end Monitor

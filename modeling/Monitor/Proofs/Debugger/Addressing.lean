import Monitor.Proofs.Breakpoint.Addressing
import Monitor.Proofs.Debugger.Failure

namespace Monitor.Debugger

open Attempt Revision

variable {p : Processor} {text : String} {d : Debugger} {address : UInt32}

theorem addressCommand_of_evaluate (hcolon : ':' ∉ text.toList)
    (hp : (d.store.list p).processor = p) (hdsp : p = .dsp → d.settings.dspEnabled = true)
    (h : result (Expression.evaluate (d.scope p) text) = .ok address) :
    (address.toNat < 1 <<< p.addressBits → ∃ b : Breakpoint, b.IsAt p address ∧
      result (d.store.addressCommand p text d.context) =
        .ok (address, d.store.setList ((d.store.list p).append b) p)) ∧
    (1 <<< p.addressBits ≤ address.toNat → ∃ e, e.fault = .numberDoesNotFit ∧
      result (d.store.addressCommand p text d.context) = .error ⟨.condition e, d.store⟩) := by
  have hvalue : result (Expression.evaluate
      ⟨d.context.machine, p, d.context.settings.radix⟩ text) = .ok address := h
  obtain ⟨haccepted, hrefused⟩ := Store.command_counter hp d.context hdsp address
  rw [Store.result_addressCommand hcolon, hvalue]
  dsimp only
  constructor
  · intro hfits
    obtain ⟨b, hb, hcommand⟩ := haccepted hfits
    exact ⟨b, hb, by rw [hcommand]; rfl⟩
  · intro hfits
    obtain ⟨e, hfault, hcommand⟩ := hrefused hfits
    exact ⟨e, hfault, by rw [hcommand]; rfl⟩

/-- A breakpoint at an address is set just if the text has a value, and the value is in the range of
the program counter. A failure leaves the breakpoints, and the debugger, as they are. -/
theorem breakpoint_at_address (hcolon : ':' ∉ text.toList)
    (hp : (d.store.list p).processor = p) :
    (∀ f, result (Expression.evaluate (d.scope p) text) = .error f →
      result (d.store.addressCommand p text d.context) = .error ⟨.expression text f, d.store⟩) ∧
    (∀ address, result (Expression.evaluate (d.scope p) text) = .ok address →
      (p = .cpu → ∃ b : Breakpoint, b.IsAt p address ∧
        result (d.store.addressCommand p text d.context) =
          .ok (address, d.store.setList ((d.store.list p).append b) p)) ∧
      (p = .dsp → d.settings.dspEnabled = true →
        (address.toNat < 65536 → ∃ b : Breakpoint, b.IsAt p address ∧
          result (d.store.addressCommand p text d.context) =
            .ok (address, d.store.setList ((d.store.list p).append b) p)) ∧
        (65536 ≤ address.toNat → ∃ e, e.fault = .numberDoesNotFit ∧
          result (d.store.addressCommand p text d.context) = .error ⟨.condition e, d.store⟩))) ∧
    ∀ f, result (d.store.addressCommand p text d.context) = .error f →
      f.left = d.store ∧ outcome (breakAt p (some text)) d = (.error (.breakpoint f.error), d) := by
  refine ⟨fun f hf => ?_, fun address h => ⟨fun hcpu => ?_, fun hdsp henabled => ?_⟩,
    fun f hf => ?_⟩
  · have hvalue : result (Expression.evaluate
        ⟨d.context.machine, p, d.context.settings.radix⟩ text) = .error f := hf
    rw [Store.result_addressCommand hcolon, hvalue]
  · subst hcpu
    exact (addressCommand_of_evaluate hcolon hp nofun h).1 (UInt32.toNat_lt address)
  · subst hdsp
    exact addressCommand_of_evaluate hcolon hp (fun _ => henabled) h
  · have hleft : f.left = d.store := Store.left_of_addressCommand hf
    have hrevise := outcome_revise .breakpoint
      (fun d : Debugger => d.store.addressCommand p text d.context) d
    rw [hf] at hrevise
    dsimp only at hrevise
    rw [hleft] at hrevise
    exact ⟨hleft, outcome_bind_of_error hrevise⟩

theorem breakpoint_at_sum :
    (∃ b : Breakpoint, b.IsAt .dsp 0x1234 ∧
      result (({} : Store).addressCommand .dsp "1200 + 34"
        ⟨Machine.ofRam 16, { radix := .hexadecimal }, {}⟩) =
          .ok (0x1234, ({} : Store).setList ((({} : Store).list .dsp).append b) .dsp)) ∧
    ∃ e, outcome (breakAt .dsp (some "1200 + ee00"))
      (ofMachine (Machine.ofRam 16) { radix := .hexadecimal } {}) =
        (.error e, ofMachine (Machine.ofRam 16) { radix := .hexadecimal } {}) := by
  let d : Debugger := ofMachine (Machine.ofRam 16) { radix := .hexadecimal } {}
  have hfits : result (Expression.evaluate (d.scope .dsp) "1200 + 34") = .ok 0x1234 := by
    decide +kernel
  have hlarge : result (Expression.evaluate (d.scope .dsp) "1200 + ee00") = .ok 0x10000 := by
    decide +kernel
  have hp : (d.store.list .dsp).processor = .dsp := rfl
  constructor
  · have hcolon : ':' ∉ "1200 + 34".toList := by decide
    exact (((breakpoint_at_address hcolon hp).2.1 _ hfits).2 rfl rfl).1 (by decide)
  · have hcolon : ':' ∉ "1200 + ee00".toList := by decide
    obtain ⟨-, hvalue, hunchanged⟩ := breakpoint_at_address hcolon hp
    obtain ⟨e, -, he⟩ := ((hvalue _ hlarge).2 rfl rfl).2 (by decide)
    exact ⟨_, (hunchanged _ he).2⟩

end Monitor.Debugger

import Monitor.Condition.Parsed
import Monitor.Proofs.Attempt

namespace Monitor.Condition

open Attempt

variable {scope : Scope} {cursor rest : Cursor}

theorem tracks_of_readOne {c : Condition} (h : result (readOne scope cursor) = .ok (c, rest)) :
    c.tracks = false := by
  simp only [readOne, result_bind, bind_eq_ok, result_pure] at h
  obtain ⟨_, _, _, _, _, _, _, _, _, _, hc⟩ := h
  cases hc
  rfl

theorem tracks_of_readJoined {joints : Nat} {cs : List Condition}
    (h : result (readJoined scope joints cursor) = .ok cs) : ∀ c ∈ cs, c.tracks = false := by
  induction joints generalizing cursor cs with
  | zero =>
    rw [readJoined, result_bind, bind_eq_ok] at h
    obtain ⟨⟨last, rest⟩, hlast, h⟩ := h
    dsimp only at h
    split at h
    · cases h
      simpa using tracks_of_readOne hlast
    · cases h
  | succ joints ih =>
    rw [readJoined, result_bind, bind_eq_ok] at h
    obtain ⟨⟨first, rest⟩, hfirst, h⟩ := h
    dsimp only at h
    split at h
    · cases h
      simpa using tracks_of_readOne hfirst
    · rw [result_bind, bind_eq_ok] at h
      obtain ⟨more, hmore, h⟩ := h
      cases h
      rw [List.forall_mem_cons]
      exact ⟨tracks_of_readOne hfirst, ih hmore⟩
    · cases h

theorem tracks_of_parse {text : String} {parsed : Parsed}
    (h : result (parse scope text) = .ok parsed) : ∀ c ∈ parsed.conditions, c.tracks = false := by
  simp only [parse, result_bind, bind_eq_ok, result_adapt, mapError_eq_ok] at h
  obtain ⟨_, _, conditions, hconditions, h⟩ := h
  cases h
  exact tracks_of_readJoined hconditions

end Monitor.Condition

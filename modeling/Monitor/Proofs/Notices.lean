import Monitor.Proofs.Revision

namespace Monitor

variable {σ τ ε ε' α β : Type}

namespace Logged

/-- The events that neither warn nor tell of an error. -/
def notices (x : Logged α) : List Event :=
  x.events.filter (·.severity == .info)

@[simp] theorem notices_pure (a : α) : (pure a : Logged α).notices = [] := rfl

@[simp] theorem notices_bind (x : Logged α) (f : α → Logged β) :
    (x >>= f).notices = x.notices ++ (f x.value).notices :=
  List.filter_append ..

@[simp] theorem notices_info (message : String) : (info message).notices = [⟨.info, message⟩] := rfl

end Logged

namespace Attempt

def notices (x : Attempt ε α) : List Event :=
  Logged.notices x.run

@[simp] theorem notices_pure (a : α) : notices (pure a : Attempt ε α) = [] := rfl

@[simp] theorem notices_lift (x : Logged α) :
    notices (liftM x : Attempt ε α) = x.notices :=
  (Logged.notices_bind x _).trans (List.append_nil _)

theorem notices_bind (x : Attempt ε α) (f : α → Attempt ε β) :
    notices (x >>= f) = notices x ++
      match result x with
      | .ok a => notices (f a)
      | .error _ => [] := by
  have hrun : (x >>= f).run = x.run >>= ExceptT.bindCont f := rfl
  rw [notices, hrun, Logged.notices_bind]
  obtain ⟨value, events⟩ := x
  cases value <;> rfl

theorem notices_bind_eq_nil {x : Attempt ε α} {f : α → Attempt ε β} (hx : notices x = [])
    (hf : ∀ a, notices (f a) = []) : notices (x >>= f) = [] := by
  rw [notices_bind, hx, List.nil_append]
  split
  · exact hf _
  · rfl

@[simp] theorem notices_adapt (x : Attempt ε α) (f : ε → ε') :
    notices (x.adapt f) = notices x :=
  (Logged.notices_bind x.run _).trans (List.append_nil _)

end Attempt

namespace Revision

def notices (x : Revision σ ε α) (s : σ) : List Event :=
  Logged.notices (x.run.run s)

@[simp] theorem notices_pure (a : α) (s : σ) : notices (pure a : Revision σ ε α) s = [] := rfl

@[simp] theorem notices_get (s : σ) : notices (get : Revision σ ε σ) s = [] := rfl

@[simp] theorem notices_modify (g : σ → σ) (s : σ) :
    notices (modify g : Revision σ ε PUnit) s = [] := rfl

@[simp] theorem notices_log (y : Logged α) (s : σ) :
    notices (liftM y : Revision σ ε α) s = y.notices := by
  have hrun : (liftM y : Revision σ ε α).run.run s =
      (do let a ← y; pure (a, s)) >>= fun r => pure (.ok r.1, r.2) := rfl
  rw [notices, hrun]
  simp only [Logged.notices_bind, Logged.notices_pure, List.append_nil]

@[simp] theorem notices_aside (x : Attempt ε α) (s : σ) :
    notices (aside x : Revision σ ε α) s = Attempt.notices x :=
  (Logged.notices_bind x.run _).trans (List.append_nil _)

theorem notices_bind (x : Revision σ ε α) (f : α → Revision σ ε β) (s : σ) :
    notices (x >>= f) s = notices x s ++
      match outcome x s with
      | (.ok a, t) => notices (f a) t
      | (.error _, _) => [] := by
  rw [notices, ExceptT.run_bind, StateT.run_bind, Logged.notices_bind, outcome]
  rcases (x.run.run s).value with ⟨_ | _, _⟩ <;> rfl

theorem notices_within (put : σ → τ → σ) (x : σ → Revised τ ε α) (s : σ) :
    notices (within put x) s = Attempt.notices (x s) := by
  refine (Logged.notices_bind (x s).run _).trans ?_
  rcases (x s).run.value with _ | ⟨_, _⟩ <;> exact List.append_nil _

theorem notices_on (s : σ) (x : Revision σ ε α) :
    Attempt.notices (Revised.on s x) = notices x s := by
  refine (Logged.notices_bind (x.run.run s) _).trans ?_
  rcases (x.run.run s).value with ⟨_ | _, _⟩ <;> exact List.append_nil _

end Revision

end Monitor

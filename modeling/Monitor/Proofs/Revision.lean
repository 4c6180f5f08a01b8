import Monitor.Proofs.Attempt

namespace Monitor.Revision

open Attempt

variable {σ τ ε ε' α β : Type} {x : Revision σ ε α} {f : α → Revision σ ε β} {s t : σ}

/-- What a revision comes to, and what it leaves of a state. -/
def outcome (x : Revision σ ε α) (s : σ) : Except ε α × σ :=
  (x.run.run s).value

theorem outcome_bind (x : Revision σ ε α) (f : α → Revision σ ε β) (s : σ) :
    outcome (x >>= f) s = match outcome x s with
      | (.ok a, t) => outcome (f a) t
      | (.error e, t) => (.error e, t) := by
  rw [outcome, ExceptT.run_bind, StateT.run_bind, Logged.value_bind, ← outcome]
  rcases outcome x s with ⟨_ | _, _⟩ <;> rfl

theorem outcome_bind_of_ok {a : α} (h : outcome x s = (.ok a, t)) :
    outcome (x >>= f) s = outcome (f a) t := by
  rw [outcome_bind, h]

theorem outcome_bind_of_error {e : ε} (h : outcome x s = (.error e, t)) :
    outcome (x >>= f) s = (.error e, t) := by
  rw [outcome_bind, h]

theorem outcome_bind_eq_ok {b : β} {u : σ} : outcome (x >>= f) s = (.ok b, u) ↔
    ∃ a t, outcome x s = (.ok a, t) ∧ outcome (f a) t = (.ok b, u) := by
  rw [outcome_bind]
  rcases outcome x s with ⟨e | a, t⟩
  · simp
  · exact ⟨fun h => ⟨a, t, rfl, h⟩, by rintro ⟨_, _, ⟨⟩, h⟩; exact h⟩

@[simp] theorem outcome_pure (a : α) (s : σ) :
    outcome (pure a : Revision σ ε α) s = (.ok a, s) := rfl

@[simp] theorem outcome_throw (e : ε) (s : σ) :
    outcome (throw e : Revision σ ε α) s = (.error e, s) := rfl

@[simp] theorem outcome_get (s : σ) : outcome (get : Revision σ ε σ) s = (.ok s, s) := rfl

@[simp] theorem outcome_set (s t : σ) :
    outcome (set t : Revision σ ε PUnit) s = (.ok ⟨⟩, t) := rfl

@[simp] theorem outcome_modify (g : σ → σ) (s : σ) :
    outcome (modify g : Revision σ ε PUnit) s = (.ok ⟨⟩, g s) := rfl

@[simp] theorem outcome_log (y : Logged α) (s : σ) :
    outcome (liftM y : Revision σ ε α) s = (.ok y.value, s) := rfl

@[simp] theorem outcome_aside (x : Attempt ε α) (s : σ) :
    outcome (aside x : Revision σ ε α) s = (result x, s) := rfl

@[simp] theorem outcome_adapt (x : Revision σ ε α) (cause : ε → ε') (s : σ) :
    outcome (x.adapt cause : Revision σ ε' α) s =
      ((outcome x s).1.mapError cause, (outcome x s).2) := rfl

theorem outcome_within (put : σ → τ → σ) (x : σ → Revised τ ε α) (s : σ) :
    outcome (within put x) s = match result (x s) with
      | .ok (a, t) => (.ok a, put s t)
      | .error f => (.error f.error, put s f.left) := by
  have hrun : (x s).run.value = result (x s) := rfl
  rw [within, outcome, ExceptT.run_mk, StateT.run, Logged.value_bind, hrun]
  rcases result (x s) with _ | ⟨_, _⟩ <;> rfl

theorem outcome_within_eq_ok {put : σ → τ → σ} {x : σ → Revised τ ε α} {a : α} {s' : σ} :
    outcome (within put x) s = (.ok a, s') ↔ ∃ t, result (x s) = .ok (a, t) ∧ s' = put s t := by
  rw [outcome_within]
  rcases result (x s) with f | ⟨b, t⟩
  · simp
  · simp only [Prod.mk.injEq, Except.ok.injEq]
    exact ⟨by rintro ⟨rfl, rfl⟩; exact ⟨t, ⟨rfl, rfl⟩, rfl⟩,
      by rintro ⟨_, ⟨rfl, rfl⟩, rfl⟩; exact ⟨rfl, rfl⟩⟩

theorem outcome_of (x : σ → Revised σ ε α) (s : σ) :
    outcome (of x) s = match result (x s) with
      | .ok (a, t) => (.ok a, t)
      | .error f => (.error f.error, f.left) :=
  outcome_within (fun _ s => s) x s

theorem outcome_of_eq_ok {x : σ → Revised σ ε α} {a : α} :
    outcome (of x) s = (.ok a, t) ↔ result (x s) = .ok (a, t) := by
  rw [outcome_of]
  rcases result (x s) with f | ⟨b, u⟩ <;> simp

theorem outcome_adapt_eq_ok {cause : ε → ε'} {a : α} :
    outcome (x.adapt cause : Revision σ ε' α) s = (.ok a, t) ↔ outcome x s = (.ok a, t) := by
  rw [outcome_adapt, Prod.ext_iff, Prod.ext_iff, mapError_eq_ok]

theorem result_on (s : σ) (x : Revision σ ε α) :
    result (Revised.on s x) = match outcome x s with
      | (.ok a, t) => .ok (a, t)
      | (.error e, t) => .error ⟨e, t⟩ := by
  have hrun : (x.run.run s).value = outcome x s := rfl
  rw [Revised.on, result, ExceptT.run_mk, Logged.value_bind, hrun]
  rcases outcome x s with ⟨_ | _, _⟩ <;> rfl

theorem result_on_eq_ok {a : α} :
    result (Revised.on s x) = .ok (a, t) ↔ outcome x s = (.ok a, t) := by
  rw [result_on]
  rcases outcome x s with ⟨_ | _, _⟩ <;> simp

theorem result_on_eq_error {f : Failed σ ε} :
    result (Revised.on s x) = .error f ↔ outcome x s = (.error f.error, f.left) := by
  rw [result_on]
  rcases outcome x s with ⟨_ | _, _⟩ <;> simp [Failed.ext_iff]

def Keeps (x : Revision σ ε α) : Prop :=
  ∀ s, (outcome x s).2 = s

def Succeeds (x : Revision σ ε α) : Prop :=
  ∀ s, ∃ a t, outcome x s = (.ok a, t)

/-- A failure comes before any change. -/
def FailsEarly (x : Revision σ ε α) : Prop :=
  ∀ s e t, outcome x s = (.error e, t) → t = s

theorem Keeps.failsEarly (hx : Keeps x) : FailsEarly x := by
  intro s e t h
  rw [← hx s, h]

theorem Succeeds.ne_error (hx : Succeeds x) (e : ε) : outcome x s ≠ (.error e, t) := by
  obtain ⟨a, _, ha⟩ := hx s
  rw [ha]
  exact nofun

theorem Succeeds.failsEarly (hx : Succeeds x) : FailsEarly x :=
  fun _ e _ h => absurd h (hx.ne_error e)

theorem Keeps.bind (hx : Keeps x) (hf : ∀ a, Keeps (f a)) : Keeps (x >>= f) := by
  intro s
  have hs := hx s
  cases h : outcome x s with
  | mk result t =>
    rw [h] at hs
    subst hs
    cases result with
    | error e => rw [outcome_bind_of_error h]
    | ok a =>
      rw [outcome_bind_of_ok h]
      exact hf a t

theorem Succeeds.bind (hx : Succeeds x) (hf : ∀ a, Succeeds (f a)) : Succeeds (x >>= f) := by
  intro s
  obtain ⟨a, t, h⟩ := hx s
  rw [outcome_bind_of_ok h]
  exact hf a t

theorem Keeps.bind_failsEarly (hx : Keeps x) (hf : ∀ a, FailsEarly (f a)) :
    FailsEarly (x >>= f) := by
  intro s e t h
  have hs := hx s
  cases hout : outcome x s with
  | mk result u =>
    rw [hout] at hs
    subst hs
    cases result with
    | error e' =>
      rw [outcome_bind_of_error hout] at h
      cases h
      rfl
    | ok a =>
      rw [outcome_bind_of_ok hout] at h
      exact hf a u e t h

theorem FailsEarly.bind (hx : FailsEarly x) (hf : ∀ a, Succeeds (f a)) : FailsEarly (x >>= f) := by
  intro s e t h
  cases hout : outcome x s with
  | mk result u =>
    cases result with
    | error e' =>
      rw [outcome_bind_of_error hout] at h
      cases h
      exact hx s e t hout
    | ok a =>
      rw [outcome_bind_of_ok hout] at h
      exact absurd h ((hf a).ne_error e)

theorem FailsEarly.adapt (hx : FailsEarly x) (cause : ε → ε') :
    FailsEarly (x.adapt cause : Revision σ ε' α) := by
  intro s e t h
  rw [outcome_adapt] at h
  cases hout : outcome x s with
  | mk result u =>
    rw [hout] at h
    cases result with
    | error e' =>
      cases h
      exact hx s e' u hout
    | ok a => cases h

theorem FailsEarly.left_eq (hx : FailsEarly x) {f : Failed σ ε}
    (h : result (Revised.on s x) = .error f) : f.left = s :=
  hx s f.error f.left (result_on_eq_error.1 h)

theorem failsEarly_within {put : σ → τ → σ} {y : σ → Revised τ ε α}
    (h : ∀ s f, result (y s) = .error f → put s f.left = s) : FailsEarly (within put y) := by
  intro s e s' hout
  rw [outcome_within] at hout
  cases hresult : result (y s) with
  | ok next =>
    rw [hresult] at hout
    cases hout
  | error f =>
    rw [hresult] at hout
    cases hout
    exact h s f hresult

theorem failsEarly_of {y : σ → Revised σ ε α}
    (h : ∀ s f, result (y s) = .error f → f.left = s) : FailsEarly (of y) :=
  failsEarly_within h

theorem keeps_pure (a : α) : Keeps (pure a : Revision σ ε α) :=
  fun _ => rfl

theorem keeps_throw (e : ε) : Keeps (throw e : Revision σ ε α) :=
  fun _ => rfl

theorem keeps_get : Keeps (get : Revision σ ε σ) :=
  fun _ => rfl

theorem keeps_aside (y : Attempt ε α) : Keeps (aside y : Revision σ ε α) :=
  fun _ => rfl

theorem keeps_log (y : Logged α) : Keeps (liftM y : Revision σ ε α) :=
  fun _ => rfl

theorem succeeds_pure (a : α) : Succeeds (pure a : Revision σ ε α) :=
  fun s => ⟨a, s, rfl⟩

theorem succeeds_modify (g : σ → σ) : Succeeds (modify g : Revision σ ε Unit) :=
  fun s => ⟨⟨⟩, g s, rfl⟩

theorem succeeds_set (s : σ) : Succeeds (set s : Revision σ ε PUnit) :=
  fun _ => ⟨⟨⟩, s, rfl⟩

theorem succeeds_log (y : Logged α) : Succeeds (liftM y : Revision σ ε α) :=
  fun s => ⟨y.value, s, rfl⟩

end Monitor.Revision

import Monitor.Log

namespace Monitor.Attempt

variable {ε ε' α β : Type}

/-- What an attempt comes to, without what it logs. -/
def result (x : Attempt ε α) : Except ε α :=
  x.run.value

@[simp] theorem result_pure (a : α) : result (pure a : Attempt ε α) = .ok a := rfl

@[simp] theorem result_throw (e : ε) : result (throw e : Attempt ε α) = .error e := rfl

@[simp] theorem result_mk (x : Except ε α) : result (ExceptT.mk (pure x)) = x := rfl

@[simp] theorem result_lift (x : Logged α) : result (liftM x : Attempt ε α) = .ok x.value := rfl

@[simp] theorem result_bind (x : Attempt ε α) (f : α → Attempt ε β) :
    result (x >>= f) = result x >>= fun a => result (f a) := by
  cases x with
  | mk value events =>
    cases value with
    | error e => rfl
    | ok a => rfl

@[simp] theorem result_adapt (x : Attempt ε α) (f : ε → ε') :
    result (x.adapt f) = (result x).mapError f := by
  cases x with
  | mk value events =>
    cases value with
    | error e => rfl
    | ok a => rfl

@[simp] theorem ok_bind (a : α) (f : α → Except ε β) : (Except.ok a >>= f) = f a := rfl

@[simp] theorem error_bind (e : ε) (f : α → Except ε β) :
    (Except.error e >>= f) = .error e := rfl

theorem bind_eq_ok {x : Except ε α} {f : α → Except ε β} {b : β} :
    (x >>= f) = .ok b ↔ ∃ a, x = .ok a ∧ f a = .ok b := by
  cases x with
  | error e => simp
  | ok a => simp

theorem bind_eq_error {x : Except ε α} {f : α → Except ε β} {e : ε} :
    (x >>= f) = .error e ↔ x = .error e ∨ ∃ a, x = .ok a ∧ f a = .error e := by
  cases x with
  | error e' => simp
  | ok a => simp

@[simp] theorem mapError_ok (a : α) (f : ε → ε') : (Except.ok a).mapError f = .ok a := rfl

@[simp] theorem mapError_error (e : ε) (f : ε → ε') :
    (Except.error e : Except ε α).mapError f = .error (f e) := rfl

@[simp] theorem mapError_eq_ok {x : Except ε α} {f : ε → ε'} {a : α} :
    x.mapError f = .ok a ↔ x = .ok a := by
  cases x with
  | error e => simp
  | ok a => simp

theorem toOption_eq_some {x : Except ε α} {a : α} : x.toOption = some a ↔ x = .ok a := by
  cases x with
  | error e => exact ⟨nofun, nofun⟩
  | ok b => exact Option.some_inj.trans (by simp)

/-- An attempt of which the results are seen in another way. It logs the same. -/
def recast (f : ε → ε') (g : α → β) (x : Attempt ε α) : Attempt ε' β :=
  ExceptT.mk ⟨(x.run.value.mapError f).map g, x.run.events⟩

variable {γ δ : Type} {f : ε → ε'} {g : α → β}

theorem adapt_recast (h : ε' → δ) (x : Attempt ε α) :
    (recast f g x).adapt h = recast (fun e => h (f e)) g x := by
  obtain ⟨value, events⟩ := x
  cases value <;> exact congrArg (Logged.mk _) (List.append_nil events)

theorem recast_adapt (h : δ → ε) (x : Attempt δ α) :
    recast f g (x.adapt h) = recast (fun e => f (h e)) g x := by
  obtain ⟨value, events⟩ := x
  cases value <;> exact congrArg (Logged.mk _) (List.append_nil events)

theorem recast_id (x : Attempt ε α) : recast f id x = x.adapt f := by
  obtain ⟨value, events⟩ := x
  cases value <;> exact congrArg (Logged.mk _) (List.append_nil events).symm

theorem mk_ok_bind (a : α) (k : α → Attempt ε β) : ExceptT.mk (pure (.ok a)) >>= k = k a :=
  rfl

theorem recast_bind {h : γ → δ} {x : Attempt ε α} {k : α → Attempt ε γ}
    {k' : β → Attempt ε' δ} (hk : ∀ a, result x = .ok a → k' (g a) = recast f h (k a)) :
    recast f g x >>= k' = recast f h (x >>= k) := by
  obtain ⟨value, events⟩ := x
  cases value with
  | error e => rfl
  | ok a =>
    have hmore : k' (g a) = recast f h (k a) := hk a rfl
    exact congrArg (fun y : Attempt ε' δ => Logged.mk y.run.value (events ++ y.run.events)) hmore

end Monitor.Attempt

namespace Monitor

inductive Severity
  | error
  | warning
  | info
  deriving DecidableEq, Repr

def Severity.label : Severity → String
  | .error => "ERROR"
  | .warning => "WARN"
  | .info => "INFO"

structure Event where
  severity : Severity
  message : String
  deriving DecidableEq, Repr

/-- A result together with the events of the computation that gave it, oldest first. -/
structure Logged (α : Type) where
  value : α
  events : List Event
  deriving DecidableEq, Repr

namespace Logged

instance : Monad Logged where
  pure a := ⟨a, []⟩
  bind x f := ⟨(f x.value).value, x.events ++ (f x.value).events⟩

def emit (severity : Severity) (message : String) : Logged Unit :=
  ⟨(), [⟨severity, message⟩]⟩

def error (message : String) : Logged Unit :=
  emit .error message

def warn (message : String) : Logged Unit :=
  emit .warning message

def info (message : String) : Logged Unit :=
  emit .info message

@[simp] theorem value_pure {α : Type} (a : α) : (pure a : Logged α).value = a := rfl

@[simp] theorem events_pure {α : Type} (a : α) : (pure a : Logged α).events = [] := rfl

@[simp] theorem value_bind {α β : Type} (x : Logged α) (f : α → Logged β) :
    (x >>= f).value = (f x.value).value := rfl

@[simp] theorem events_bind {α β : Type} (x : Logged α) (f : α → Logged β) :
    (x >>= f).events = x.events ++ (f x.value).events := rfl

instance : LawfulMonad Logged := LawfulMonad.mk' Logged
  (fun x => by cases x; simp [Functor.map])
  (fun _ _ => by simp [bind, pure])
  (fun _ _ _ => by simp [bind])

end Logged

/-- A computation that logs and may fail; what was logged before a failure stays logged. -/
abbrev Attempt (ε α : Type) := ExceptT ε Logged α

/-- A failure, with what it has left of the state that was worked on. -/
@[ext]
structure Failed (σ ε : Type) where
  error : ε
  left : σ
  deriving DecidableEq, Repr

instance {σ ε : Type} : CoeOut (Failed σ ε) ε :=
  ⟨Failed.error⟩

/-- A computation on a state that logs and may fail. A failure takes nothing back. -/
abbrev Revision (σ ε α : Type) := ExceptT ε (StateT σ Logged) α

/-- What comes of a state: a result with the new state, or else a failure with it. -/
abbrev Revised (σ ε α : Type) := Attempt (Failed σ ε) (α × σ)

variable {σ τ ε α : Type}

def Revised.on (s : σ) (x : Revision σ ε α) : Revised σ ε α :=
  ExceptT.mk do
    match ← x.run.run s with
    | (.ok a, s) => return .ok (a, s)
    | (.error e, s) => return .error ⟨e, s⟩

namespace Revision

/-- Revises a part of a state. -/
def within (put : σ → τ → σ) (x : σ → Revised τ ε α) : Revision σ ε α :=
  ExceptT.mk fun s => do
    match ← (x s).run with
    | .ok (a, t) => return (.ok a, put s t)
    | .error f => return (.error f.error, put s f.left)

def of (x : σ → Revised σ ε α) : Revision σ ε α :=
  within (fun _ s => s) x

/-- An attempt that knows nothing of the state. -/
def aside (x : Attempt ε α) : Revision σ ε α :=
  ExceptT.mk fun s => return (← x.run, s)

end Revision

end Monitor

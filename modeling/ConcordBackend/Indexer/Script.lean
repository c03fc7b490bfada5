import ConcordBackend.Db
import ConcordBackend.Library.Program

/-!
# Scripts

While it processes an event the indexer only writes: it never reads a row back, and the
first statement that fails ends it. Such code is a `Script`: the statements in the order it
sends them, up to its return or to the error that ends it. `Script.writes` and
`Script.outcome` are what a script sends and how it ends when every statement succeeds.
-/

namespace ConcordBackend

/-- Straight-line code over the indexer's write statements. -/
inductive Script (α : Type) where
  | done (a : α)
  | fail (e : Error)
  | write (w : Write) (k : Script α)

namespace Script

variable {α β : Type}

/-- Sequencing: errors skip the rest. -/
def bind (s : Script α) (f : α → Script β) : Script β :=
  match s with
  | done a => f a
  | fail e => fail e
  | write w k => write w (k.bind f)

instance : Monad Script where
  pure := done
  bind := bind

/-- A decoding step: its value, or the error that ends the script. -/
def ofExcept : Except Error α → Script α
  | .ok a => done a
  | .error e => fail e

instance : MonadLift (Except Error) Script := ⟨ofExcept⟩

/-- Send one statement. -/
def send (w : Write) : Script Unit := write w (done ())

/-- The statements sent as long as none fails. -/
def writes : Script α → List Write
  | done _ => []
  | fail _ => []
  | write w k => w :: k.writes

/-- How the script ends when no statement fails. -/
def outcome : Script α → Except Error α
  | done a => .ok a
  | fail e => .error e
  | write _ k => k.outcome

@[simp] theorem pure_eq_done (a : α) : (pure a : Script α) = done a := rfl

@[simp] theorem bind_eq_bind (s : Script α) (f : α → Script β) : (s >>= f) = s.bind f := rfl

@[simp] theorem done_bind (a : α) (f : α → Script β) : (done a).bind f = f a := rfl

@[simp] theorem fail_bind (e : Error) (f : α → Script β) : (fail e).bind f = fail e := rfl

@[simp] theorem write_bind (w : Write) (k : Script α) (f : α → Script β) :
    (write w k).bind f = write w (k.bind f) := rfl

@[simp] theorem send_bind (w : Write) (f : Unit → Script β) :
    (send w).bind f = write w (f ()) := rfl

@[simp] theorem liftM_ok (a : α) : (liftM (Except.ok a : Except Error α) : Script α) = done a :=
  rfl

@[simp] theorem liftM_error (e : Error) :
    (liftM (Except.error e : Except Error α) : Script α) = fail e := rfl

@[simp] theorem writes_done (a : α) : (done a).writes = [] := rfl

@[simp] theorem writes_fail (e : Error) : (fail e : Script α).writes = [] := rfl

@[simp] theorem writes_write (w : Write) (k : Script α) : (write w k).writes = w :: k.writes := rfl

@[simp] theorem outcome_done (a : α) : (done a).outcome = .ok a := rfl

@[simp] theorem outcome_fail (e : Error) : (fail e : Script α).outcome = .error e := rfl

@[simp] theorem outcome_write (w : Write) (k : Script α) : (write w k).outcome = k.outcome := rfl

/-- The statements of a sequence: those of the first part, then those of the second if the
first one returns. -/
theorem writes_bind (s : Script α) (f : α → Script β) :
    (s.bind f).writes =
      s.writes ++ match s.outcome with
        | .ok a => (f a).writes
        | .error _ => [] := by
  induction s with
  | done a => rfl
  | fail e => rfl
  | write w k ih => simp [ih]

/-- A sequence ends as its second part does, unless its first part errs. -/
theorem outcome_bind (s : Script α) (f : α → Script β) :
    (s.bind f).outcome = s.outcome.bind fun a => (f a).outcome := by
  induction s with
  | done a => rfl
  | fail e => rfl
  | write w k ih => simpa using ih

/-- The statements of a decoding step: none. -/
@[simp] theorem writes_liftM (r : Except Error α) : (liftM r : Script α).writes = [] := by
  cases r <;> rfl

/-- A decoding step ends as the decoder does. -/
@[simp] theorem outcome_liftM (r : Except Error α) : (liftM r : Script α).outcome = r := by
  cases r <;> rfl

end Script

end ConcordBackend

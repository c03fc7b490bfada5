import ConcordBackend.Indexer.Poll
import ConcordBackend.View

/-!
# The world around the indexer

The indexer talks to a database and to an RPC provider. `Env` says what may happen to it
there: which statements may fail for no fault of their own, which ledgers the provider may
report, and which pages it may serve. `Env.handler` turns this into the handler of the
service's operations: a statement takes effect as a whole or not at all, `now()` is whatever
the clock says, and every call of the provider may also fail.

What a run did to the database can be read off its trace. `executed` are the writes that
succeeded and `stored` the cursors that were stored; `view_of_runs` and `cursor_of_runs` say that
these account for every change of the three tables and of the cursor, whatever the program.
-/

namespace ConcordBackend

/-- What surrounds the service. -/
structure Env where
  /-- the state of the RPC provider -/
  Rpc : Type
  /-- the statements the connection or the server may fail -/
  faulty : Query → Prop
  /-- the latest ledgers the provider may report -/
  latest : Rpc → UInt32 → Prop
  /-- the pages the provider may serve for a request, and what it remembers of them -/
  serves : Rpc → GetEventsParams → GetEventsResult → Rpc → Prop

/-- A database and an RPC provider. -/
structure World (E : Env) where
  db : Db
  rpc : E.Rpc

/-- Two worlds with the same database and provider are the same. -/
theorem World.eq_of {E : Env} {w w' : World E} (hdb : w'.db = w.db) (hrpc : w'.rpc = w.rpc) : w' = w := by
  cases w
  cases w'
  cases hdb
  cases hrpc
  rfl

/-- One statement: it takes effect, it is rejected by a constraint, or it fails and leaves the
database alone. -/
inductive SqlStep (faulty : Query → Prop) (q : Query) (db : Db) :
    Except SqlError q.Reply → Db → Prop where
  | ok {now : DateTime} {r : q.Reply} {db' : Db} (h : q.exec now db = .ok (r, db')) :
      SqlStep faulty q db (.ok r) db'
  | rejected {now : DateTime} {e : SqlError} (h : q.exec now db = .error e) :
      SqlStep faulty q db (.error e) db
  | fault (h : faulty q) : SqlStep faulty q db (.error .transient) db

/-- A statement that succeeded took effect. -/
theorem SqlStep.ok_inv {faulty : Query → Prop} {q : Query} {db db' : Db} {a : q.Reply}
    (h : SqlStep faulty q db (.ok a) db') : ∃ now, q.exec now db = .ok (a, db') := by
  cases h with
  | ok hexec => exact ⟨_, hexec⟩

/-- A statement that failed left the database alone. -/
theorem SqlStep.error_inv {faulty : Query → Prop} {q : Query} {db db' : Db} {e : SqlError}
    (h : SqlStep faulty q db (.error e) db') :
    db' = db ∧ ((∃ now, q.exec now db = .error e) ∨ faulty q ∧ e = .transient) := by
  cases h with
  | rejected hexec => exact ⟨rfl, Or.inl ⟨_, hexec⟩⟩
  | fault hf => exact ⟨rfl, Or.inr ⟨hf, rfl⟩⟩

/-- A statement that only reads leaves the database alone, also where it fails. -/
theorem SqlStep.eq_of_reads {faulty : Query → Prop} {q : Query} {db db' : Db}
    {r : Except SqlError q.Reply} (hq : ∀ now, ∃ a, q.exec now db = .ok (a, db))
    (h : SqlStep faulty q db r db') : db' = db := by
  rcases r with e | a
  · exact h.error_inv.1
  · obtain ⟨now, hexec⟩ := h.ok_inv
    obtain ⟨a', ha'⟩ := hq now
    rw [ha'] at hexec
    exact (Prod.mk.inj (Except.ok.inj hexec)).2.symm

/-- What the world answers the service. -/
def Env.handler (E : Env) : Handler Service (World E)
  | .sql q, w, r, w' => SqlStep E.faulty q w.db r w'.db ∧ w'.rpc = w.rpc
  | .getLatestLedger, w, r, w' => w' = w ∧ ∀ latest, r = .ok latest → E.latest w.rpc latest
  | .getEvents params, w, r, w' =>
    w'.db = w.db ∧ match r with
      | .ok result => E.serves w.rpc params result w'.rpc
      | .error _ => w'.rpc = w.rpc
  | .spawnDelivery _, w, _, w' => w' = w
  | .utcNow, w, _, w' => w' = w

/-! ### Traces -/

/-- The write an answered operation executed. -/
def executed? : Sigma Service.Reply → Option Write
  | ⟨.sql (.write w), .ok _⟩ => some w
  | _ => none

/-- The writes a run executed. -/
def executed (tr : Service.Trace) : List Write := tr.filterMap executed?

/-- The cursor an answered operation stored. -/
def stored? : Sigma Service.Reply → Option (Int64 × Option String)
  | ⟨.sql (.setCursor ledger token), .ok _⟩ => some (ledger, some token)
  | _ => none

/-- The cursors a run stored. -/
def stored (tr : Service.Trace) : List (Int64 × Option String) := tr.filterMap stored?

/-- The request of an operation that asks for events, answered or not. -/
def request? : Sigma Service.Reply → Option GetEventsParams
  | ⟨.getEvents params, _⟩ => some params
  | _ => none

/-- The requests for events of a run. -/
def requests (tr : Service.Trace) : List GetEventsParams := tr.filterMap request?

/-- The page an operation was served, with its request. -/
def page? : Sigma Service.Reply → Option (GetEventsParams × GetEventsResult)
  | ⟨.getEvents params, .ok result⟩ => some (params, result)
  | _ => none

/-- The pages a run was served, with their requests. -/
def pages (tr : Service.Trace) : List (GetEventsParams × GetEventsResult) := tr.filterMap page?

/-- The page a poll committed, with its request: the one it was served, if it stored a
cursor. -/
def committed? (tr : Service.Trace) : Option (GetEventsParams × GetEventsResult) :=
  if stored tr = [] then none else (pages tr).head?

/-- The delivery an operation started. -/
def delivery? : Sigma Service.Reply → Option Delivery
  | ⟨.spawnDelivery d, _⟩ => some d
  | _ => none

/-- The deliveries a run started. -/
def deliveries (tr : Service.Trace) : List Delivery := tr.filterMap delivery?

/-- No write of the trace failed for no fault of its own. -/
def Calm (tr : Service.Trace) : Prop :=
  ∀ wr, ⟨.sql (.write wr), .error .transient⟩ ∉ tr

theorem calm_append {tr tr' : Service.Trace} : Calm (tr ++ tr') ↔ Calm tr ∧ Calm tr' := by
  simp only [Calm, List.mem_append, not_or, forall_and]

@[simp] theorem executed_append (tr tr' : Service.Trace) :
    executed (tr ++ tr') = executed tr ++ executed tr' := List.filterMap_append

@[simp] theorem stored_append (tr tr' : Service.Trace) :
    stored (tr ++ tr') = stored tr ++ stored tr' := List.filterMap_append

@[simp] theorem requests_append (tr tr' : Service.Trace) :
    requests (tr ++ tr') = requests tr ++ requests tr' := List.filterMap_append

@[simp] theorem pages_append (tr tr' : Service.Trace) :
    pages (tr ++ tr') = pages tr ++ pages tr' := List.filterMap_append

@[simp] theorem deliveries_append (tr tr' : Service.Trace) :
    deliveries (tr ++ tr') = deliveries tr ++ deliveries tr' := List.filterMap_append

@[simp] theorem executed_nil : executed [] = [] := rfl

private theorem filterMap_cons_toList {β γ : Type} (f : β → Option γ) (x : β) (l : List β) :
    (x :: l).filterMap f = (f x).toList ++ l.filterMap f := by
  rcases hx : f x with _ | y
  · exact List.filterMap_cons_none hx
  · exact List.filterMap_cons_some hx

@[simp] theorem executed_cons (x : Sigma Service.Reply) (tr : Service.Trace) :
    executed (x :: tr) = (executed? x).toList ++ executed tr := filterMap_cons_toList ..

@[simp] theorem stored_cons (x : Sigma Service.Reply) (tr : Service.Trace) :
    stored (x :: tr) = (stored? x).toList ++ stored tr := filterMap_cons_toList ..

@[simp] theorem requests_cons (x : Sigma Service.Reply) (tr : Service.Trace) :
    requests (x :: tr) = (request? x).toList ++ requests tr := filterMap_cons_toList ..

@[simp] theorem pages_cons (x : Sigma Service.Reply) (tr : Service.Trace) :
    pages (x :: tr) = (page? x).toList ++ pages tr := filterMap_cons_toList ..

@[simp] theorem deliveries_cons (x : Sigma Service.Reply) (tr : Service.Trace) :
    deliveries (x :: tr) = (delivery? x).toList ++ deliveries tr := filterMap_cons_toList ..

/-! ### What a trace accounts for -/

/-- What a statement that succeeds does to the tables and to the cursor. -/
theorem Query.exec_spec {now : DateTime} {db db' : Db} {q : Query} {r : q.Reply}
    (h : q.exec now db = .ok (r, db')) :
    db'.view = View.run (executed? ⟨.sql q, .ok r⟩).toList db.view ∧
      db'.indexerCursor = (stored? ⟨.sql q, .ok r⟩).getD db.indexerCursor := by
  cases q with
  | write w =>
    have hw := exec_write h
    exact ⟨Write.view_exec hw, (Write.exec_frame hw).2⟩
  | insertWebhook w =>
    simp only [exec, Db.insertWebhook] at h
    split at h
    · cases h
    split at h
    · cases h
    split at h
    · obtain ⟨-, rfl⟩ := Prod.mk.inj (Except.ok.inj h)
      exact ⟨rfl, rfl⟩
    · cases h
  | _ =>
    obtain ⟨-, rfl⟩ := Prod.mk.inj (Except.ok.inj h)
    exact ⟨rfl, rfl⟩

theorem SqlStep.spec {faulty : Query → Prop} {q : Query} {db db' : Db}
    {r : Except SqlError q.Reply} (h : SqlStep faulty q db r db') :
    db'.view = View.run (executed? ⟨.sql q, r⟩).toList db.view ∧
      db'.indexerCursor = (stored? ⟨.sql q, r⟩).getD db.indexerCursor := by
  cases h with
  | ok hexec => exact Query.exec_spec hexec
  | rejected => cases q <;> exact ⟨rfl, rfl⟩
  | fault => cases q <;> exact ⟨rfl, rfl⟩

variable {E : Env}

theorem handler_spec {op : ServiceOp} {w w' : World E} {r : op.Reply}
    (h : E.handler op w r w') :
    w'.db.view = View.run (executed? ⟨op, r⟩).toList w.db.view ∧
      w'.db.indexerCursor = (stored? ⟨op, r⟩).getD w.db.indexerCursor := by
  cases op with
  | sql q => exact h.1.spec
  | getEvents params => exact h.1 ▸ ⟨rfl, rfl⟩
  | getLatestLedger => exact h.1 ▸ ⟨rfl, rfl⟩
  | spawnDelivery d => exact congrArg World.db h ▸ ⟨rfl, rfl⟩
  | utcNow => exact congrArg World.db h ▸ ⟨rfl, rfl⟩

variable {ε α : Type} {p q : Prog Service ε α} {w w' : World E} {tr : Service.Trace}

/-- The tables after a run are the tables before it with the executed writes applied. -/
theorem view_of_runs (h : Runs E.handler p w tr q w') :
    w'.db.view = View.run (executed tr) w.db.view := by
  induction h with
  | refl => rfl
  | step hop _ ih => rw [ih, (handler_spec hop).1, executed_cons, View.run_append]

/-- The cursor after a run is the last one stored. -/
theorem cursor_of_runs (h : Runs E.handler p w tr q w') :
    w'.db.indexerCursor = (stored tr).getLast?.getD w.db.indexerCursor := by
  induction h with
  | refl => rfl
  | step hop _ ih =>
    rw [ih, (handler_spec hop).2, stored_cons, List.getLast?_append]
    rcases (stored _).getLast? with _ | c
    · rcases stored? _ with _ | c <;> rfl
    · rfl

end ConcordBackend

import ConcordBackend.Indexer.Runs

/-!
# Processing a list of events

`Processed` is one in-order pass of the event loop over a list of events, with no fault of the
environment. Such passes exist from every database (`Processed.exists_of`), and what they do
to the tables is a function of the tables (`View.process`): each event of a successful call
performs its statements up to the first one the foreign key rejects.

Where the statements are all admitted, a pass executes all of them and a part of a pass a
prefix of them, so no statement is lost but by stopping (`executed_of_page`).
-/

namespace ConcordBackend

/-- The world in which nothing fails, and in which no provider answers. -/
def Env.calm : Env where
  Rpc := Unit
  faulty := fun _ => False
  latest := fun _ _ => False
  serves := fun _ _ _ _ => False

/-- One in-order pass of the event loop over `events`. -/
def Processed (crates : Crates) (events : List RpcEvent) (db db' : Db) : Prop :=
  ∃ n tr, Runs Env.calm.handler (runPage crates events 0) ⟨db, ()⟩ tr (.done n) ⟨db', ()⟩

/-- The statements of the events the loop does not pass over, in order. -/
def writesOf (crates : Crates) (events : List RpcEvent) : List Write :=
  (events.filter RpcEvent.inSuccessfulContractCall).flatMap fun event =>
    (processEvent crates event).writes

/-- What the loop does to the tables with one event. -/
def View.processEvent (crates : Crates) (event : RpcEvent) (v : View) : View :=
  if event.inSuccessfulContractCall then
    View.perform (ConcordBackend.processEvent crates event).writes v
  else v

/-- What the loop does to the tables with a list of events. -/
def View.process (crates : Crates) (events : List RpcEvent) (v : View) : View :=
  Replay.run (View.processEvent crates) events v

/-- The loop performs a beginning of an event's statements. -/
theorem View.processEvent_eq_run (crates : Crates) (event : RpcEvent) (v : View) :
    ∃ done, done <+: (ConcordBackend.processEvent crates event).writes ∧
      View.processEvent crates event v = View.run done v := by
  unfold processEvent
  split
  · exact View.perform_eq_run_prefix _ v
  · exact ⟨[], List.nil_prefix, rfl⟩

@[simp] theorem writesOf_nil (crates : Crates) : writesOf crates [] = [] := rfl

theorem writesOf_append (crates : Crates) (events events' : List RpcEvent) :
    writesOf crates (events ++ events') = writesOf crates events ++ writesOf crates events' := by
  simp [writesOf]

theorem writesOf_cons_of_pos {crates : Crates} {event : RpcEvent}
    (h : event.inSuccessfulContractCall = true) (events : List RpcEvent) :
    writesOf crates (event :: events) =
      (processEvent crates event).writes ++ writesOf crates events := by
  simp [writesOf, h]

theorem writesOf_cons_of_neg {crates : Crates} {event : RpcEvent}
    (h : event.inSuccessfulContractCall = false) (events : List RpcEvent) :
    writesOf crates (event :: events) = writesOf crates events := by
  simp [writesOf, h]

variable {E : Env} {w w' : World E} {tr : Service.Trace} {α : Type}

/-- A write that does not fail by fault: it takes effect where it is admitted, and is rejected
where it is not. -/
theorem write_step {faulty : Query → Prop} {wr : Write} {db db' : Db} {r : Except SqlError Unit}
    (hr : r ≠ .error .transient)
    (h : SqlStep faulty (Query.write wr) db r db') :
    (db.view.Admits wr ∧ r = .ok () ∧ db'.view = db.view.apply wr) ∨
      (¬ db.view.Admits wr ∧ r = .error .foreignKey ∧ db' = db) := by
  have hexec : ∀ {now : DateTime} {x : Except SqlError (Unit × Db)},
      (Query.write wr).exec now db = x →
      (db.view.Admits wr ∧ ∃ db'', x = .ok ((), db'') ∧ db''.view = db.view.apply wr) ∨
        (¬ db.view.Admits wr ∧ x = .error .foreignKey) := by
    rintro now x rfl
    rcases wr.exec_spec now db with ⟨hadm, db'', hw, hview⟩ | ⟨hadm, hw⟩
    · exact Or.inl ⟨hadm, db'', by rw [Query.exec, hw]; rfl, hview⟩
    · exact Or.inr ⟨hadm, by rw [Query.exec, hw]; rfl⟩
  rcases r with e | a
  · obtain ⟨rfl, ⟨now, hw⟩ | ⟨-, rfl⟩⟩ := h.error_inv
    · rcases hexec hw with ⟨-, db'', hok, -⟩ | ⟨hadm, herr⟩
      · cases hok
      · exact Or.inr ⟨hadm, congrArg _ (Except.error.inj herr), rfl⟩
    · exact absurd rfl hr
  · obtain ⟨now, hw⟩ := h.ok_inv
    rcases hexec hw with ⟨hadm, db'', hok, hview⟩ | ⟨-, herr⟩
    · obtain ⟨-, rfl⟩ := Prod.mk.inj (Except.ok.inj hok)
      exact Or.inl ⟨hadm, rfl, hview⟩
    · cases herr

/-- The database rejects a statement for a constraint, and for nothing else. -/
theorem exec_ne_transient (q : Query) (now : DateTime) (db : Db) :
    q.exec now db ≠ .error .transient := by
  intro h
  cases q with
  | write wr =>
    rcases wr.exec_spec now db with ⟨-, db', hw, -⟩ | ⟨-, hw⟩
    · rw [Query.exec, hw] at h
      cases h
    · rw [Query.exec, hw] at h
      cases h
  | insertWebhook webhook =>
    rw [Query.exec, Db.insertWebhook] at h
    split_ifs at h
    all_goals cases h
  | _ => cases h

/-- A statement the environment does not fail fails for a fault of its own only. -/
theorem not_transient_of_runs {ε : Type} {p q : Prog Service ε α} {query : Query}
    (hf : ¬ E.faulty query) (h : Runs E.handler p w tr q w') :
    (⟨.sql query, .error .transient⟩ : Sigma Service.Reply) ∉ tr := by
  induction h with
  | refl => exact fun hx => by cases hx
  | step hop _ ih =>
    intro hx
    rcases List.mem_cons.mp hx with heq | hx
    · cases heq
      obtain ⟨-, ⟨now, hexec⟩ | ⟨hfault, -⟩⟩ := hop.1.error_inv
      · exact exec_ne_transient query now _ hexec
      · exact hf hfault
    · exact ih hx

/-- Where the environment fails no write, no write of a run fails for no fault of its own. -/
theorem calm_of_runs {ε : Type} {p q : Prog Service ε α} (hf : ∀ wr, ¬ E.faulty (.write wr))
    (h : Runs E.handler p w tr q w') : Calm tr := fun wr => not_transient_of_runs (hf wr) h

/-! ### Passes without faults -/

/-- A script performs its statements up to the first that is not admitted. -/
theorem view_of_toProg {s : Script α} {q : ServiceM α} (h : Runs E.handler s.toProg w tr q w')
    (hcalm : Calm tr) (hq : q.Finished) : w'.db.view = View.perform s.writes w.db.view := by
  induction s generalizing w tr with
  | done a =>
    obtain ⟨-, -, rfl⟩ := h.done_inv
    rfl
  | fail e =>
    obtain ⟨-, -, rfl⟩ := h.fail_inv
    rfl
  | write wr k ih =>
    rcases h.call_inv with ⟨-, rfl, -⟩ | ⟨r, w₁, tr', hop, rfl, hrun⟩
    · exact hq.elim
    · have hr : r ≠ .error .transient := fun hr => hcalm wr (hr ▸ List.mem_cons_self)
      rw [Script.writes_write, View.perform]
      rcases write_step hr hop.1 with ⟨hadm, rfl, hview⟩ | ⟨hadm, rfl, hdb⟩
      · rw [if_pos hadm, ← hview]
        exact ih hrun fun wr' hx => hcalm wr' (List.mem_cons_of_mem _ hx)
      · obtain ⟨-, -, rfl⟩ := hrun.fail_inv
        rw [if_neg hadm, hdb]

/-- Notifications leave the tables alone. -/
theorem view_of_runEvent {crates : Crates} {event : RpcEvent} {q : ServiceM Unit}
    (h : Runs E.handler (runEvent crates event) w tr q w') (hcalm : Calm tr)
    (hq : q.Finished) :
    w'.db.view = View.perform (processEvent crates event).writes w.db.view := by
  rcases h.bind_finished_inv hq with ⟨e, hp, rfl⟩ | ⟨r, w₁, tr₁, tr₂, h₁, h₂, rfl⟩
  · exact view_of_toProg hp hcalm trivial
  · rw [← view_of_toProg h₁ (calm_append.mp hcalm).1 trivial]
    rcases r with _ | ⟨e, name⟩
    · obtain ⟨-, -, rfl⟩ := h₂.done_inv
      rfl
    · rw [view_of_runs h₂, executed_eq_nil (h₂.only (notifyWebhooks_only crates e name))]
      rfl

theorem view_of_pageRun {crates : Crates} {events : List RpcEvent}
    {rs : List (EventRun E crates)} (h : PageRun E crates events w rs w')
    (hcalm : Calm (pageTrace rs)) : w'.db.view = View.process crates events w.db.view := by
  induction h with
  | nil => rfl
  | skip hskip _ ih =>
    rw [ih hcalm, View.process, View.process, Replay.run_cons, View.processEvent, hskip]
    rfl
  | event r hcall _ ih =>
    obtain ⟨hhead, hrest⟩ := calm_append.mp hcalm
    rw [ih hrest, view_of_runEvent r.runs hhead r.finished, View.process, View.process,
      Replay.run_cons, View.processEvent, if_pos hcall]

/-- What a pass without faults does to the tables. -/
theorem view_of_page {crates : Crates} {events : List RpcEvent} {n : Nat} {q : ServiceM Nat}
    (h : Runs E.handler (runPage crates events n) w tr q w') (hcalm : Calm tr)
    (hq : q.Finished) : w'.db.view = View.process crates events w.db.view := by
  rcases runPage_inv h with ⟨rs, hpage, rfl, -⟩ |
      ⟨past, event, rest, rs, w₁, seg, q₁, -, -, -, -, -, hnot⟩
  · exact view_of_pageRun hpage hcalm
  · exact absurd hq hnot

/-- A script whose statements are all admitted executes all of them. -/
theorem executed_of_toProg {s : Script α} {q : ServiceM α} (hready : w.db.view.Ready s.writes)
    (h : Runs E.handler s.toProg w tr q w') (hcalm : Calm tr) (hq : q.Finished) :
    executed tr = s.writes := by
  induction s generalizing w tr with
  | done a =>
    obtain ⟨rfl, -, -⟩ := h.done_inv
    rfl
  | fail e =>
    obtain ⟨rfl, -, -⟩ := h.fail_inv
    rfl
  | write wr k ih =>
    rcases h.call_inv with ⟨-, rfl, -⟩ | ⟨r, w₁, tr', hop, rfl, hrun⟩
    · exact hq.elim
    · have hr : r ≠ .error .transient := fun hr => hcalm wr (hr ▸ List.mem_cons_self)
      obtain ⟨hadm, hrest⟩ := hready
      rcases write_step hr hop.1 with ⟨-, rfl, hview⟩ | ⟨hnot, -, -⟩
      · rw [← hview] at hrest
        exact congrArg (wr :: ·)
          (ih hrest hrun fun wr' hx => hcalm wr' (List.mem_cons_of_mem _ hx))
      · exact absurd hadm hnot

theorem executed_of_runEvent {crates : Crates} {event : RpcEvent} {q : ServiceM Unit}
    (hready : w.db.view.Ready (processEvent crates event).writes)
    (h : Runs E.handler (runEvent crates event) w tr q w') (hcalm : Calm tr)
    (hq : q.Finished) : executed tr = (processEvent crates event).writes := by
  rcases h.bind_finished_inv hq with ⟨e, hp, -⟩ | ⟨r, w₁, tr₁, tr₂, h₁, h₂, rfl⟩
  · exact executed_of_toProg hready hp hcalm trivial
  · have hnil : executed tr₂ = [] := by
      rcases r with _ | ⟨e, name⟩
      · obtain ⟨rfl, -, -⟩ := h₂.done_inv
        rfl
      · exact executed_eq_nil (h₂.only (notifyWebhooks_only crates e name))
    rw [executed_append, hnil, List.append_nil]
    exact executed_of_toProg hready h₁ (calm_append.mp hcalm).1 trivial

theorem executed_of_pageRun {crates : Crates} {events : List RpcEvent}
    {rs : List (EventRun E crates)} (hready : w.db.view.Ready (writesOf crates events))
    (h : PageRun E crates events w rs w') (hcalm : Calm (pageTrace rs)) :
    executed (pageTrace rs) = writesOf crates events := by
  induction h with
  | nil => rfl
  | skip hskip _ ih =>
    rw [writesOf_cons_of_neg hskip] at hready ⊢
    exact ih hready hcalm
  | event r hcall _ ih =>
    rw [writesOf_cons_of_pos hcall] at hready ⊢
    obtain ⟨hhead, hrest⟩ := View.ready_append.mp hready
    obtain ⟨hcalm₁, hcalm₂⟩ := calm_append.mp hcalm
    have hall := executed_of_runEvent hhead r.runs hcalm₁ r.finished
    rw [← hall, ← view_of_runs r.runs] at hrest
    rw [pageTrace_cons, executed_append, hall, ih hrest hcalm₂]

/-- **Passes over a page.** Where all statements are admitted and none fails by fault, a part of
a pass executes a prefix of them, and a whole pass all of them. -/
theorem executed_of_page {crates : Crates} {events : List RpcEvent} {n : Nat} {q : ServiceM Nat}
    (hready : w.db.view.Ready (writesOf crates events))
    (h : Runs E.handler (runPage crates events n) w tr q w') (hcalm : Calm tr) :
    executed tr <+: writesOf crates events ∧
      (q.Finished → executed tr = writesOf crates events) := by
  rcases runPage_inv h with ⟨rs, hpage, rfl, rfl⟩ |
      ⟨past, event, rest, rs, w₁, seg, q₁, rfl, hpage, hcall, hrun, rfl, hq⟩
  · have hall := executed_of_pageRun hready hpage hcalm
    exact ⟨hall ▸ List.prefix_rfl, fun _ => hall⟩
  · rw [writesOf_append, writesOf_cons_of_pos hcall] at hready ⊢
    have hall := executed_of_pageRun (View.ready_append.mp hready).1 hpage (calm_append.mp hcalm).1
    have hpre :=
      (executed_of_runEvent_isPrefix hrun).trans (List.prefix_append _ (writesOf crates rest))
    refine ⟨?_, fun h => absurd h hq⟩
    rw [executed_append, hall]
    exact (List.prefix_append_right_inj _).mpr hpre

/-! ### In-order passes -/

theorem Processed.view {crates : Crates} {events : List RpcEvent} {db db' : Db}
    (h : Processed crates events db db') : db'.view = View.process crates events db.view := by
  obtain ⟨n, tr, hrun⟩ := h
  exact view_of_page hrun (calm_of_runs (fun _ => id) hrun) trivial

/-- **Passes exist**, from every database. -/
theorem Processed.exists_of (crates : Crates) (events : List RpcEvent) (db : Db) :
    ∃ db', Processed crates events db db' := by
  obtain ⟨tr, n, w', hrun⟩ := exists_page crates events (⟨db, ()⟩ : World Env.calm)
  exact ⟨w'.db, n, tr, hrun⟩

/-- Where all statements are admitted, processing events runs their statements. -/
theorem View.process_eq_run {crates : Crates} {events : List RpcEvent} {v : View}
    (h : v.Ready (writesOf crates events)) :
    View.process crates events v = View.run (writesOf crates events) v := by
  induction events generalizing v with
  | nil => rfl
  | cons event events ih =>
    rw [View.process, Replay.run_cons, ← View.process, View.processEvent]
    split
    · rename_i hcall
      rw [writesOf_cons_of_pos hcall] at h ⊢
      obtain ⟨hhead, hrest⟩ := View.ready_append.mp h
      rw [View.perform_eq_run hhead, ih hrest, View.run_append]
    · rename_i hcall
      have hskip : event.inSuccessfulContractCall = false := by simpa using hcall
      rw [writesOf_cons_of_neg hskip] at h ⊢
      exact ih h

/-- Where the statements of events are known and all admitted, processing the events runs
them. -/
theorem View.process_of_writesOf {crates : Crates} {events : List RpcEvent} {ws : List Write}
    (hws : writesOf crates events = ws) {v : View} (hready : v.Ready ws) :
    View.process crates events v = View.run ws v := by
  subst hws
  exact View.process_eq_run hready

/-- A pass whose statements are all admitted runs them. -/
theorem Processed.view_run {crates : Crates} {events : List RpcEvent} {db db' : Db}
    (h : Processed crates events db db') {ws : List Write} (hws : writesOf crates events = ws)
    (hready : db.view.Ready ws) : db'.view = View.run ws db.view := by
  rw [h.view, View.process_of_writesOf hws hready]

/-- An event that decodes, with all statements admitted and none failing, ends without an
error. -/
theorem EventRun.done_of_ready {crates : Crates} (r : EventRun E crates)
    {o : Option (Int64 × String)} (hout : (processEvent crates r.event).outcome = .ok o)
    {ws : List Write} (hws : (processEvent crates r.event).writes = ws)
    (hready : r.before.db.view.Ready ws) (hcalm : Calm r.trace) : r.rest = .done () := by
  subst hws
  have hall := executed_of_runEvent hready r.runs hcalm r.finished
  obtain ⟨w₁, tr₁, tr₂, -, hrun, -⟩ := r.returned hout hall
  have hfin := r.finished
  rcases hrest : r.rest with u | err | ⟨op, k⟩
  · rfl
  · rw [hrest] at hrun
    rcases o with _ | ⟨e, name⟩
    · cases hrun
    · exact (notifyWebhooks_ne_fail hrun).elim
  · rw [hrest] at hfin
    exact hfin.elim

/-- After an event that ended without an error its statements have all been run. -/
theorem EventRun.view_of_done {crates : Crates} (r : EventRun E crates)
    (hdone : r.rest = .done ()) :
    r.after.db.view = View.run (processEvent crates r.event).writes r.before.db.view := by
  obtain ⟨-, -, hall⟩ := r.executed_of_done hdone
  rw [view_of_runs r.runs, hall]

/-- Where no write fails by fault and all statements of an event are admitted, processing it ends
without an error. -/
theorem EventRun.exists_done {crates : Crates} (hcalm : ∀ wr, ¬ E.faulty (.write wr))
    {event : RpcEvent} {o : Option (Int64 × String)}
    (hout : (processEvent crates event).outcome = .ok o) {ws : List Write}
    (hws : (processEvent crates event).writes = ws) {w : World E} (hready : w.db.view.Ready ws) :
    ∃ r : EventRun E crates, r.event = event ∧ r.before = w ∧ r.rest = .done () ∧
      r.after.db.view = View.run ws w.db.view := by
  obtain ⟨r, rfl, rfl⟩ := exists_of crates event w
  have hdone := r.done_of_ready hout hws hready (calm_of_runs hcalm r.runs)
  exact ⟨r, rfl, rfl, hdone, hws ▸ r.view_of_done hdone⟩

end ConcordBackend

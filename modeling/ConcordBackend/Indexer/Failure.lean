import ConcordBackend.Indexer.Cursor
import ConcordBackend.Indexer.Process

/-!
# What a failed statement costs

`process_event` sends its statements one by one and outside any transaction. An event that
fails leaves the tables as its statements before the failing one left them
(`failed_event_leaves`); it is logged and skipped, and as the cursor moves on over the whole
page, what it did not write is not written later. `executed_of_committed` is what a poll that
stores its cursor does guarantee: an event none of whose statements failed is written
completely, and each webhook of its escrow is notified once; and a provider that serves a log
from where it is asked to (`Feed.Provides`) serves no event of the page again.
-/

namespace ConcordBackend

variable {E : Env} {crates : Crates} {event : RpcEvent} {w w' : World E} {tr : Service.Trace}

/-! ### Statements that took effect -/

/-- The writes took effect one after the other, each at some time. -/
inductive Ran : List Write → Db → Db → Prop where
  | nil (db : Db) : Ran [] db db
  | cons {wr : Write} {ws : List Write} {now : DateTime} {db db₁ db' : Db}
      (h : wr.exec now db = .ok db₁) (hrest : Ran ws db₁ db') : Ran (wr :: ws) db db'

theorem Ran.nil_inv {db db' : Db} (h : Ran [] db db') : db' = db := by
  cases h
  rfl

/-- The processing of events changes the database by its writes only. -/
theorem ran_of_runs {ε α : Type} {p q : Prog Service ε α} (hp : p.Only Processes)
    (h : Runs E.handler p w tr q w') : Ran (executed tr) w.db w'.db := by
  induction h with
  | refl => exact .nil _
  | @step op k w w₁ w' r tr q hop _ ih =>
    have hrest := ih (hp.2 r)
    rw [executed_cons]
    cases hp.1 with
    | write wr =>
      rcases r with e | a
      · -- a statement that fails is not among the executed, and has left the database alone
        obtain ⟨hdb, -⟩ := hop.1.error_inv
        rw [← hdb]
        exact hrest
      · obtain ⟨now, hexec⟩ := hop.1.ok_inv
        exact .cons (Query.exec_write hexec) hrest
    | notify hn =>
      rw [eq_of_notifies hn hop] at hrest
      cases hn
      all_goals exact hrest

/-! ### An event that fails -/

/-- An event other than an `escrow_created` that does not decode sends nothing. -/
theorem writes_eq_nil_of_error {err : Error}
    (hname : ∀ head, decodeHead crates event = .ok head → head.name ≠ "escrow_created")
    (h : (processEvent crates event).outcome = .error err) :
    (processEvent crates event).writes = [] := by
  rcases hhead : decodeHead crates event with err' | head
  · rw [processEvent_of_error hhead]
    rfl
  · obtain ⟨r, hd, hout⟩ := processEvent_spec hhead
    rcases r with err' | b
    · exact hd.nil_of_error rfl (hname head hhead)
    · rw [hout] at h
      cases h

/-- **What an event that fails leaves.** -/
theorem failed_event_leaves {err : Error}
    (h : Runs E.handler (runEvent crates event) w tr (.fail err) w') :
    ∃ done rest, (processEvent crates event).writes = done ++ rest ∧ Ran done w.db w'.db ∧
      ((rest = [] ∧ (processEvent crates event).outcome = .error err) ∨
        ∃ wr rest' e, rest = wr :: rest' ∧ err = .database e ∧
          ⟨.sql (.write wr), .error e⟩ ∈ tr) ∧
      ((∀ head, decodeHead crates event = .ok head → head.name ≠ "escrow_created") →
        (processEvent crates event).outcome = .error err → w'.db = w.db) := by
  have hran := ran_of_runs (runEvent_only crates event) h
  rcases h.bind_finished_inv trivial with ⟨e, hp, heq⟩ | ⟨r, w₁, tr₁, tr₂, h₁, h₂, rfl⟩
  · obtain rfl := Prog.fail.inj heq
    have hsame : (∀ head, decodeHead crates event = .ok head → head.name ≠ "escrow_created") →
        (processEvent crates event).outcome = .error err → w'.db = w.db := by
      intro hname hout
      have hnil := (toProg_inv hp).executed_isPrefix
      rw [writes_eq_nil_of_error hname hout, List.prefix_nil] at hnil
      rw [hnil] at hran
      exact hran.nil_inv
    cases toProg_inv hp with
    | raised hout hw =>
      exact ⟨executed tr, [], by rw [hw, List.append_nil], hran, Or.inl ⟨rfl, hout⟩, hsame⟩
    | failed htr hw =>
      refine ⟨executed tr, _, hw, hran, Or.inr ⟨_, _, _, rfl, rfl, ?_⟩, hsame⟩
      rw [htr]
      exact List.mem_append_right _ List.mem_cons_self
    | running hq => exact absurd trivial hq
  · rcases r with _ | ⟨e, name⟩
    · cases h₂
    · exact (notifyWebhooks_ne_fail h₂).elim

/-- The database after the first statement of the sample's first event. -/
def sampleDb : Db := Db.migrated.upsertEscrow 0 (sampleEscrow sampleContract 1)

/-- The second statement of the sample's first event fails. -/
theorem sample_failedRun : Runs sampleFeed.env.handler
    (runEvent sampleCrates (createdEvent sampleContract 1)) ⟨Db.migrated, ()⟩
    [⟨.sql (.write (.upsertEscrow (sampleEscrow sampleContract 1))), .ok ()⟩,
      ⟨.sql (.write (.upsertMilestone sampleMilestone)), .error .transient⟩]
    (.fail (.database .transient)) ⟨sampleDb, ()⟩ := by
  have hexec : (Query.write (.upsertEscrow (sampleEscrow sampleContract 1))).exec 0
      Db.migrated = .ok ((), sampleDb) := rfl
  have hok : sampleFeed.env.handler
      (.sql (.write (.upsertEscrow (sampleEscrow sampleContract 1)))) ⟨Db.migrated, ()⟩
      (.ok ()) ⟨sampleDb, ()⟩ := ⟨.ok hexec, rfl⟩
  have hfault : sampleFeed.env.handler (.sql (.write (.upsertMilestone sampleMilestone)))
      ⟨sampleDb, ()⟩ (.error .transient) ⟨sampleDb, ()⟩ := ⟨.fault trivial, rfl⟩
  rw [runEvent, processEvent_createdEvent]
  exact .step hok (.step hfault (.refl _ _))

/-- The sample's failed event leaves its first statement's row and no other. -/
theorem failed_event_leaves_sample :
    ∃ done rest, (processEvent sampleCrates (createdEvent sampleContract 1)).writes =
        done ++ rest ∧ Ran done Db.migrated sampleDb ∧
      ((rest = [] ∧ (processEvent sampleCrates (createdEvent sampleContract 1)).outcome =
          .error (.database .transient)) ∨
        ∃ wr rest' e, rest = wr :: rest' ∧ Error.database .transient = .database e ∧
          ⟨.sql (.write wr), .error e⟩ ∈
            ([⟨.sql (.write (.upsertEscrow (sampleEscrow sampleContract 1))), .ok ()⟩,
              ⟨.sql (.write (.upsertMilestone sampleMilestone)), .error .transient⟩] :
              Service.Trace)) ∧
      ((∀ head, decodeHead sampleCrates (createdEvent sampleContract 1) = .ok head →
          head.name ≠ "escrow_created") →
        (processEvent sampleCrates (createdEvent sampleContract 1)).outcome =
          .error (.database .transient) → sampleDb = Db.migrated) :=
  failed_event_leaves sample_failedRun

/-- `process_event` is not atomic on errors: where the second statement of the sample's first
event fails, the escrow row of the first one stays. -/
theorem processEvent_not_atomic : ¬ ∀ (E : Env) (crates : Crates) (event : RpcEvent)
    (w w' : World E) (tr : Service.Trace) (err : Error),
    Runs E.handler (runEvent crates event) w tr (.fail err) w' →
      w'.db.escrows = w.db.escrows ∧ w'.db.milestones = w.db.milestones ∧
        w'.db.disputes = w.db.disputes := by
  intro hatomic
  have hsame := (hatomic _ _ _ _ _ _ _ sample_failedRun).1
  have hfind := congrArg (fun t => (t.find? 1).isSome) hsame
  revert hfind
  decide

/-! ### What a poll that stores its cursor has done -/

/-- No operation of the processing of events touches the webhooks. -/
theorem webhooks_of_processes {op : ServiceOp} {r : op.Reply} (hop : Processes op)
    (h : E.handler op w r w') : w'.db.webhooks = w.db.webhooks := by
  cases hop with
  | write wr =>
    rcases r with e | a
    · rw [h.1.error_inv.1]
    · obtain ⟨now, hexec⟩ := h.1.ok_inv
      exact (Write.exec_frame (Query.exec_write hexec)).1
  | notify hn => rw [eq_of_notifies hn h]

/-- The processing of events leaves the webhooks alone. -/
theorem webhooks_of_runs {ε α : Type} {p q : Prog Service ε α} (hp : p.Only Processes)
    (h : Runs E.handler p w tr q w') : w'.db.webhooks = w.db.webhooks := by
  refine h.invariant_of_only (I := fun w' => w'.db.webhooks = w.db.webhooks) ?_ hp rfl
  exact fun op w₁ r w₂ hop hstep hw => (webhooks_of_processes hop hstep).trans hw

/-- No statement of the trace failed for no fault of its own. -/
def Faultless (tr : Service.Trace) : Prop := ∀ q, ⟨.sql q, .error .transient⟩ ∉ tr

theorem Faultless.calm (h : Faultless tr) : Calm tr := fun wr => h (.write wr)

theorem spawnDeliveries_inv {timestamp : Int} {body : String} {webhooks : List WebhookRow}
    {q : ServiceM Unit}
    (h : Runs E.handler (spawnDeliveries crates timestamp body webhooks) w tr q w')
    (hq : q.Finished) :
    deliveries tr = webhooks.map (deliveryTo crates timestamp body) := by
  induction webhooks generalizing w tr with
  | nil =>
    obtain ⟨rfl, -, -⟩ := h.done_inv
    rfl
  | cons webhook webhooks ih =>
    rcases h.call_inv with ⟨-, rfl, -⟩ | ⟨r, w₁, tr', -, rfl, hrun⟩
    · exact hq.elim
    · rw [deliveries_cons, ih hrun]
      rfl

/-- A notification starts one delivery for each webhook, unless its lookup fails. -/
theorem notifyWebhooks_cases {e : Int64} {name : String} {q : ServiceM Unit}
    (h : Runs E.handler (notifyWebhooks crates e name) w tr q w') (hq : q.Finished) :
    (¬ Faultless tr ∧ deliveries tr = []) ∨
      ∃ timestamp, deliveries tr = (w.db.listWebhooksForEscrow e).map
        (deliveryTo crates timestamp (notificationBody e name)) := by
  rcases h.call_inv with ⟨-, rfl, -⟩ | ⟨r, w₁, tr', hop, rfl, hrun⟩
  · exact hq.elim
  rcases r with err | webhooks
  · obtain ⟨-, ⟨now, hexec⟩ | ⟨-, rfl⟩⟩ := hop.1.error_inv
    · cases hexec
    · obtain ⟨rfl, -, -⟩ := hrun.done_inv
      exact Or.inl ⟨fun hfaultless => hfaultless _ List.mem_cons_self, rfl⟩
  · obtain ⟨now, hexec⟩ := hop.1.ok_inv
    obtain rfl := (Prod.mk.inj (Except.ok.inj hexec)).1
    rcases hrun.call_inv with ⟨-, rfl, -⟩ | ⟨time, w₂, tr'', -, rfl, hrun'⟩
    · exact hq.elim
    · rw [deliveries_cons, deliveries_cons]
      exact Or.inr ⟨_, spawnDeliveries_inv hrun' hq⟩

/-- A script starts no delivery. -/
theorem deliveries_of_toProg {α : Type} {s : Script α} {q : ServiceM α}
    (h : Runs E.handler s.toProg w tr q w') : deliveries tr = [] := by
  induction s generalizing w tr with
  | done a =>
    obtain ⟨rfl, -, -⟩ := h.done_inv
    rfl
  | fail e =>
    obtain ⟨rfl, -, -⟩ := h.fail_inv
    rfl
  | write wr k ih =>
    rcases h.call_inv with ⟨rfl, -, -⟩ | ⟨r, w₁, tr', -, rfl, hrun⟩
    · rfl
    · rcases r with e | a
      · obtain ⟨rfl, -, -⟩ := hrun.fail_inv
        rfl
      · rw [deliveries_cons, ih hrun]
        rfl

/-- **An event none of whose statements failed.** It is written completely, and one delivery is
started for each webhook of its escrow. -/
theorem EventRun.complete (r : EventRun E crates) {e : Int64} {name : String}
    (hout : (processEvent crates r.event).outcome = .ok (some (e, name)))
    (hescrow : (r.before.db.getEscrow e).isSome = true ∨
      ∃ a, .upsertEscrow a ∈ (processEvent crates r.event).writes)
    (hfaultless : Faultless r.trace) :
    executed r.trace = (processEvent crates r.event).writes ∧
      ∃ timestamp, deliveries r.trace = (r.before.db.listWebhooksForEscrow e).map
        (deliveryTo crates timestamp (notificationBody e name)) := by
  have hview : (r.before.db.view.escrow e).isSome = (r.before.db.getEscrow e).isSome := by
    simp [Db.view, Db.getEscrow]
  have hready := processEvent_ready hout (v := r.before.db.view) (hview ▸ hescrow)
  have hall := executed_of_runEvent hready r.runs hfaultless.calm r.finished
  refine ⟨hall, ?_⟩
  obtain ⟨w₁, tr₁, tr₂, h₁, h₂, htr⟩ := r.returned hout hall
  have hcalm : Faultless tr₂ := fun q hmem => hfaultless q (htr ▸ List.mem_append_right _ hmem)
  obtain ⟨hfault, -⟩ | ⟨timestamp, htime⟩ := notifyWebhooks_cases h₂ r.finished
  · exact absurd hcalm hfault
  refine ⟨timestamp, ?_⟩
  have hsame : w₁.db.webhooks = r.before.db.webhooks := webhooks_of_runs (toProg_only _) h₁
  rw [htr, deliveries_append, deliveries_of_toProg h₁, List.nil_append, htime,
    Db.listWebhooksForEscrow, hsame]
  rfl

end ConcordBackend

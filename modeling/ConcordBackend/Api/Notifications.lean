import ConcordBackend.Api.Authorization
import ConcordBackend.Indexer.Notices

/-!
# Who is notified

A delivery is the end of two stories. One is the indexer's (`Notice`): an event, its statements
and a lookup. The other is the owner's (`Subscription`): a login with a wallet, a registration on
an escrow she is a party of, and no deletion since. In every run of the service each delivery has
both (`deliveries_subscribed`), whatever goes on beside it.
-/

namespace ConcordBackend

variable {crates : SessionCrates} {indexer : Crates} {jwtSecret : String} {E : Env}

/-! ### The table by its log -/

/-- The answer to an insertion of the webhook. -/
def Inserts (x : Sigma Service.Reply) (webhook : WebhookRow) : Prop :=
  x = ⟨.sql (.insertWebhook webhook), .ok webhook⟩

/-- The answer to a deletion that names the webhook and its owner. -/
def Deletes (x : Sigma Service.Reply) (webhook : WebhookRow) : Prop :=
  ∃ deleted, x = ⟨.sql (.deleteWebhook webhook.id webhook.ownerAddress), .ok deleted⟩

/-- What an operation does to the table. -/
theorem mem_webhooks_of_unordered {op : ServiceOp} {w w' : World E} {r : op.Reply}
    (h : E.unordered op w r w') (webhook : WebhookRow) :
    webhook ∈ w'.db.webhooks.rows ↔
      Inserts ⟨op, r⟩ webhook ∨ webhook ∈ w.db.webhooks.rows ∧ ¬ Deletes ⟨op, r⟩ webhook := by
  by_cases hwrites : WritesWebhooks op
  · cases hwrites with
    | insert row =>
      have hkeeps : ¬ Deletes ⟨.sql (.insertWebhook row), r⟩ webhook := by
        rintro ⟨deleted, heq⟩
        cases heq
      rcases r with err | row'
      · have hsame := h.1.error_inv.1
        have hnone : ¬ Inserts ⟨.sql (.insertWebhook row), .error err⟩ webhook := fun heq => by
          cases heq
        rw [hsame]
        simp [hkeeps, hnone]
      · obtain ⟨hreply, hins⟩ := insertWebhook_of_ok h.1
        have hinserts : Inserts ⟨.sql (.insertWebhook row), .ok row'⟩ webhook ↔ webhook = row := by
          rw [hreply]
          exact ⟨fun heq => by cases heq; rfl, fun heq => by subst heq; rfl⟩
        rw [(Db.insertWebhook_inv hins).1, List.mem_append, List.mem_singleton, hinserts]
        simp only [hkeeps, not_false_eq_true, and_true]
        exact or_comm
    | delete id owner =>
      have hnone : ¬ Inserts ⟨.sql (.deleteWebhook id owner), r⟩ webhook := fun heq => by cases heq
      rcases r with err | deleted
      · have hkeeps : ¬ Deletes ⟨.sql (.deleteWebhook id owner), .error err⟩ webhook := by
          rintro ⟨deleted, heq⟩
          cases heq
        rw [h.1.error_inv.1]
        simp [hkeeps, hnone]
      · obtain ⟨now, hexec⟩ := h.1.ok_inv
        have hdb := (Prod.mk.inj (Except.ok.inj hexec)).2
        have hdeletes : Deletes ⟨.sql (.deleteWebhook id owner), .ok deleted⟩ webhook ↔
            webhook.id = id ∧ webhook.ownerAddress = owner := by
          constructor
          · rintro ⟨deleted', heq⟩
            cases heq
            exact ⟨rfl, rfl⟩
          · rintro ⟨rfl, rfl⟩
            exact ⟨deleted, rfl⟩
        rw [← hdb, hdeletes]
        simp only [hnone, false_or]
        change webhook ∈ List.filter _ _ ↔ _
        rw [List.mem_filter]
        simp [imp_iff_not_or]
  · obtain ⟨r₀, h₀⟩ := exists_handler_of_unordered h
    have hnone : ¬ Inserts ⟨op, r⟩ webhook := fun heq => by
      cases heq
      exact hwrites (.insert _)
    have hkeeps : ¬ Deletes ⟨op, r⟩ webhook := by
      rintro ⟨deleted, heq⟩
      cases heq
      exact hwrites (.delete _ _)
    rw [webhooks_of_handler h₀ hwrites]
    simp [hnone, hkeeps]

/-- The table holds what the log says. -/
theorem mem_webhooks_iff {w w' : World E} {tr : Service.Trace} (h : Answers E.unordered w tr w')
    (hempty : w.db.webhooks.rows = []) (webhook : WebhookRow) :
    webhook ∈ w'.db.webhooks.rows ↔ Holds Inserts Deletes tr webhook :=
  h.stored_iff_holds (fun _ _ _ _ hop => mem_webhooks_of_unordered hop) (by simp [hempty]) webhook

/-- A lookup is of the rows of its escrow. -/
theorem mem_of_lookup {w w' : World E} {e : Int64} {rows : List WebhookRow} {webhook : WebhookRow}
    (h : E.unordered (.sql (.listWebhooksForEscrow e)) w (.ok rows) w') (hmem : webhook ∈ rows) :
    webhook ∈ w.db.webhooks.rows ∧ webhook.escrowId = e := by
  obtain ⟨r₀, h₀, hr⟩ := h
  rcases r₀ with err | rows₀
  · cases hr
  obtain ⟨rows', heq, hperm⟩ := hr
  obtain rfl := Except.ok.inj heq
  obtain ⟨now, hexec⟩ := h₀.1.ok_inv
  obtain rfl : w.db.listWebhooksForEscrow e = rows₀ := congrArg Prod.fst (Except.ok.inj hexec)
  have hlisted := hperm.mem_iff.mp hmem
  rw [Db.listWebhooksForEscrow, List.mem_filter] at hlisted
  exact ⟨hlisted.1, by simpa using hlisted.2⟩

/-! ### Subscriptions -/

/-- An insertion is that of a registration, and comes after its checks. -/
theorem registered_leads {req : WebhookRequest} {address : String} {tr : Service.Trace}
    {q : ApiM WebhookResponse} {webhook : WebhookRow} {r : Except SqlError WebhookRow}
    (h : Leads (req.serve address) tr q) (hmem : ⟨.sql (.insertWebhook webhook), r⟩ ∈ tr) :
    (∃ e req' drawn, req = .register e req' drawn ∧ webhook = drawn.row e address req'.url) ∧
    IsHttp webhook.url ∧ ∃ escrow : EscrowRow, escrow.IsParty address ∧
      tr = [⟨.sql (.getEscrow webhook.escrowId), .ok (some escrow)⟩,
        ⟨.sql (.insertWebhook webhook), r⟩] := by
  cases req with
  | register e req drawn =>
    rw [serve_register] at h
    split_ifs at h with hhttp
    · rcases h.call_inv with ⟨rfl, -, -⟩ | ⟨found, _, tr', -, rfl, hrest⟩
      · cases hmem
      have hin := (List.mem_cons.mp hmem).resolve_left fun heq => by cases heq
      rcases found with err | _ | escrow
      · rw [hrest.fail_inv.1] at hin
        cases hin
      · rw [hrest.fail_inv.1] at hin
        cases hin
      have hrest : Leads (if escrow.IsParty address then insertFor (drawn.row e address req.url)
        else .fail (.forbidden
          "only the escrow's client, provider, or arbitrator may register a webhook")) tr' q := hrest
      split_ifs at hrest with hparty
      · rcases hrest.call_inv with ⟨rfl, -, -⟩ | ⟨inserted, _, tr'', -, rfl, hlast⟩
        · cases hin
        have hnil : tr'' = [] := by
          rcases inserted with err | row
          · exact hlast.fail_inv.1
          · exact hlast.done_inv.1
        subst hnil
        cases List.mem_singleton.mp hin
        exact ⟨⟨e, req, drawn, rfl, rfl⟩, hhttp, escrow, hparty, rfl⟩
      · rw [hrest.fail_inv.1] at hin
        cases hin
    · rw [h.fail_inv.1] at hmem
      cases hmem
  | list e =>
    have honly : (WebhookRequest.serve address (.list e)).Only
        fun op : ServiceOp => op = .sql (.listWebhooksForEscrow e) := by
      rw [serve_list]
      refine ⟨rfl, fun listed => ?_⟩
      rcases listed with err | rows
      · trivial
      · trivial
    cases h.only honly _ hmem
  | delete e id =>
    have honly : (WebhookRequest.serve address (.delete e id)).Only
        fun op : ServiceOp => op = .sql (.deleteWebhook id address) := by
      rw [serve_delete]
      refine ⟨rfl, fun deleted => ?_⟩
      rcases deleted with err | _ | _
      · trivial
      · trivial
      · trivial
    cases h.only honly _ hmem

/-- Why a webhook is in a lookup: its owner has logged in and registered it, as a party of its
escrow, and nobody has deleted it since. -/
structure Subscription (crates : SessionCrates) (hist : Backend.History)
    (ts : List (Job × BackendM JobResult)) (looked : Service.History) (webhook : WebhookRow) where
  registration : ℕ
  past : Service.History
  future : Service.History
  looked_eq : looked = past ++
    (registration, ⟨.sql (.insertWebhook webhook), .ok webhook⟩) :: future
  undeleted : ∀ k deleted,
    (k, ⟨.sql (.deleteWebhook webhook.id webhook.ownerAddress), .ok deleted⟩) ∉ future
  now : DateTime
  session : Session crates hist ts registration webhook.ownerAddress now
  escrow : EscrowRow
  checked : (registration, ⟨.sql (.getEscrow webhook.escrowId), .ok (some escrow)⟩) ∈ serviceOf hist
  party : escrow.IsParty webhook.ownerAddress
  http : IsHttp webhook.url

variable {start : DateTime} {w₀ : World E} {hist : Backend.History}
  {ts : List (Job × BackendM JobResult)} {w : AuthWorld × World E}

/-- **Who is looked up has subscribed.** -/
theorem subscription_of_converses (hreads : crates.ReadsTokens)
    (h : Converses E.backend (Job.serve crates indexer jwtSecret) (TokensKnown crates jwtSecret)
      (⟨.new, start⟩, w₀) hist ts w)
    (hstart : DateTime.ofSeconds 60 ≤ start)
    (hend : w.1.clock ≤ DateTime.ofSeconds DateTime.maxSeconds)
    (hempty : w₀.db.webhooks.rows = []) {looked rest : Service.History} {i : ℕ} {e : Int64}
    {rows : List WebhookRow} {webhook : WebhookRow}
    (hlooked : serviceOf hist =
      looked ++ (i, ⟨.sql (.listWebhooksForEscrow e), .ok rows⟩) :: rest) (hmem : webhook ∈ rows) :
    webhook.escrowId = e ∧ Nonempty (Subscription crates hist ts looked webhook) := by
  have hanswers := service_of_serves h.serves
  rw [hlooked, Signature.History.trace, List.map_append, List.map_cons] at hanswers
  obtain ⟨w₁, w₂, hpast, hop, -⟩ := hanswers.split
  obtain ⟨hrow, hescrow⟩ := mem_of_lookup hop hmem
  refine ⟨hescrow, ?_⟩
  -- the log of the table says how the row has come into it
  obtain ⟨past, b, future, hlog, rfl, hkept⟩ := (mem_webhooks_iff hpast hempty webhook).mp hrow
  obtain ⟨past, rest', rfl, rfl, hrest⟩ := List.map_eq_append_iff.mp hlog
  obtain ⟨⟨j, b⟩, future, rfl, rfl, rfl⟩ := List.map_eq_cons_iff.mp hrest
  have hin : (j, ⟨.sql (.insertWebhook webhook), .ok webhook⟩) ∈ serviceOf hist := by
    rw [hlooked]
    exact List.mem_append_left _ (List.mem_append_right _ List.mem_cons_self)
  obtain ⟨writer⟩ := writer_of_converses hreads h hstart hend hin rfl
  obtain ⟨-, hhttp, escrow, hparty, htr⟩ :=
    registered_leads writer.leads (Signature.History.mem_of.mpr hin)
  have hchecked := htr ▸ List.mem_cons_self
  exact ⟨{
    registration := j, past, future, looked_eq := rfl
    undeleted := fun k deleted hdeleted =>
      hkept _ (List.mem_map_of_mem hdeleted) ⟨deleted, rfl⟩
    now := writer.now, session := writer.session, escrow
    checked := Signature.History.mem_of.mp hchecked, party := hparty, http := hhttp }⟩

/-- Only a poll starts deliveries. -/
theorem Job.Issues.of_delivery {job : Job} {d : Delivery} (h : job.Issues (.spawnDelivery d)) :
    ∃ contractId, job = .poll contractId := by
  cases job with
  | poll contractId => exact ⟨contractId, rfl⟩
  | escrow id => cases h
  | webhook bearer req => cases h
  | _ => exact h.elim

/-- **Deliveries go to subscribers, about what has happened.** In a run of the service that starts
without webhooks, and in which clients present no accepted token that they were not answered, a
delivery is started by a poll, for an event of a page the poll was served, whose statements it
has executed; and the webhook it goes to is one that its owner, a party of the event's escrow who
had logged in with the wallet of her address, had registered for the escrow and not deleted when
the poll looked the webhooks up. -/
theorem deliveries_subscribed (hreads : crates.ReadsTokens)
    (h : Converses E.backend (Job.serve crates indexer jwtSecret) (TokensKnown crates jwtSecret)
      (⟨.new, start⟩, w₀) hist ts w)
    (hstart : DateTime.ofSeconds 60 ≤ start)
    (hend : w.1.clock ≤ DateTime.ofSeconds DateTime.maxSeconds)
    (hempty : w₀.db.webhooks.rows = []) {past future : Backend.History} {i : ℕ} {d : Delivery}
    (hhist : hist = past ++ (i, ⟨.inr (.inl (.spawnDelivery d)), ()⟩) :: future) :
    ∃ (contractId : String) (q : BackendM JobResult) (n : Notice indexer ((serviceOf past).of i) d)
      (startLedger : Option UInt32) (cursor : Option String) (result : GetEventsResult)
      (looked rest : Service.History),
      ts[i]? = some (.poll contractId, q) ∧
      ⟨.getEvents (getEventsParams contractId startLedger cursor pageLimit), .ok result⟩ ∈
        (serviceOf past).of i ∧
      n.event ∈ result.events ∧ n.event.inSuccessfulContractCall = true ∧
      serviceOf past = looked ++ (i, ⟨.sql (.listWebhooksForEscrow n.escrowId),
        .ok (n.sent ++ n.webhook :: n.rest)⟩) :: rest ∧
      n.webhook.escrowId = n.escrowId ∧ Nonempty (Subscription crates hist ts looked n.webhook) := by
  have hserviceOf : serviceOf hist =
      serviceOf past ++ (i, ⟨.spawnDelivery d, ()⟩) :: serviceOf future := by
    rw [hhist, serviceOf, Signature.History.right_append, Signature.History.left_append]
    rfl
  have hof : (serviceOf hist).of i =
      (serviceOf past).of i ++ ⟨.spawnDelivery d, ()⟩ :: (serviceOf future).of i := by
    rw [hserviceOf, Signature.History.of_split]
  have hsent : ⟨.inr (.inl (.spawnDelivery d)), ()⟩ ∈ hist.of i := by
    rw [hhist, Signature.History.of_split]
    exact List.mem_append_right _ List.mem_cons_self
  have hlt : i < ts.length := h.serves.lt_length (Signature.History.mem_of.mp hsent)
  obtain ⟨⟨job, q⟩, hi⟩ : ∃ t, ts[i]? = some t := ⟨_, List.getElem?_eq_getElem hlt⟩
  have hleads := h.serves.leads hi
  have hissues : job.Issues (.spawnDelivery d) := hleads.only (job_only job) _ hsent
  obtain ⟨contractId, rfl⟩ := hissues.of_delivery
  -- the poll's side: the delivery has a notice
  obtain ⟨p, tr, rfl, htr, hpoll⟩ := onService_leads hleads
  have htr : (serviceOf hist).of i = tr := by
    rw [serviceOf_of, htr, Signature.Trace.right_inr, Signature.Trace.left_inl]
  have hnotices : Signature.Trace.Justified (NoticedOfPage indexer contractId) tr := by
    refine Prog.Traces.bind (fun _ _ => .append noticedOfPage_after)
      (pollOnce_notices indexer contractId).attempt (fun polled => ?_) tr p hpoll
    intro tr q h
    obtain ⟨rfl, -, -⟩ := h.done_inv
    exact .of_forall fun _ hx => by cases hx
  obtain ⟨n, startLedger, cursor, result, hpage, hevent, hcall⟩ :=
    hnotices _ _ _ (htr.symm.trans hof) d rfl
  -- the owner's side: the lookup of the notice found a subscription
  obtain ⟨looked, rest, hlooked, -, -⟩ := Signature.History.exists_split n.past_eq
  have hsplit : serviceOf hist = looked ++ (i, ⟨.sql (.listWebhooksForEscrow n.escrowId),
      .ok (n.sent ++ n.webhook :: n.rest)⟩) ::
        (rest ++ (i, ⟨.spawnDelivery d, ()⟩) :: serviceOf future) := by
    refine (hserviceOf.trans (congrArg (· ++ _) hlooked)).trans ?_
    rw [List.append_assoc, List.cons_append]
  obtain ⟨hescrow, hsubscription⟩ := subscription_of_converses hreads h hstart hend hempty hsplit
    (List.mem_append_right _ List.mem_cons_self)
  exact ⟨contractId, _, n, startLedger, cursor, result, looked, rest, hi, hpage, hevent, hcall,
    hlooked, hescrow, hsubscription⟩

/-! ### A sample delivery -/

section Sample

/-- The escrow of the sample, with the sample's wallet as its client. -/
def subscribedEscrow : UpsertEscrow := { sampleEscrow sampleContract 1 with client := sampleAddress }

/-- The funding of the escrow, delivered to the one webhook it has. -/
theorem runs_fundedPoll {db : Db} {webhook : WebhookRow} (hcursor : db.indexerCursor = (0, none))
    (hlist : db.listWebhooksForEscrow 1 = [webhook]) :
    ∃ (tr : Service.Trace) (d : Delivery) (q : ServiceM Nat) (db' : Db),
      Runs openEnv.handler (pollOnce sampleCrates sampleContract) ⟨db, ()⟩
        (tr ++ [⟨.spawnDelivery d, ()⟩]) q ⟨db', ()⟩ := by
  have hread : openEnv.handler (.sql .getCursor) ⟨db, ()⟩ (.ok (0, none)) ⟨db, ()⟩ := by
    have hexec : Query.exec 0 db .getCursor = .ok ((0, none), db) :=
      congrArg (fun c => Except.ok (c, db)) hcursor
    exact ⟨.ok hexec, rfl⟩
  let page : GetEventsResult := ⟨[fundedEvent sampleContract 1], 17281, none⟩
  have hpage : ∃ q, Runs openEnv.handler (runPage sampleCrates page.events 0) ⟨db, ()⟩
      [⟨.sql (.write (.setEscrowStatus 1 "funded" 1)), .ok ()⟩,
        ⟨.sql (.listWebhooksForEscrow 1), .ok [webhook]⟩, ⟨.utcNow, (0 : DateTime)⟩,
        ⟨.spawnDelivery (deliveryTo sampleCrates 0 (notificationBody 1 "escrow_funded") webhook),
          ()⟩]
      q ⟨db.setEscrowStatus 0 1 "funded" 1, ()⟩ := by
    rw [runPage_cons rfl]
    exact ⟨_, (runs_fundedEvent hlist).attempt.bind⟩
  obtain ⟨q, hpage⟩ := hpage
  have hlatest : openEnv.handler .getLatestLedger ⟨db, ()⟩ (.ok 1) ⟨db, ()⟩ :=
    ⟨rfl, fun _ _ => trivial⟩
  have hserve : openEnv.handler
      (.getEvents (getEventsParams sampleContract (some (bootstrapLedger 1)) none pageLimit))
      ⟨db, ()⟩ (.ok page) ⟨db, ()⟩ := ⟨rfl, trivial⟩
  exact ⟨[⟨.sql .getCursor, .ok (0, none)⟩, ⟨.getLatestLedger, .ok 1⟩, ⟨.getEvents _, .ok page⟩,
    _, _, _], _, _, _, .step hread (.step hlatest (.step hserve hpage.bind))⟩

/-- A poll can be run by itself. -/
theorem runs_poll {w w' : World E} {contractId : String} {tr : Service.Trace} {q : ServiceM Nat}
    (h : Runs E.unordered (pollOnce indexer contractId) w tr q w') (a : AuthWorld) :
    ∃ q', Runs E.backend (Job.serve crates indexer jwtSecret (.poll contractId)) (a, w)
      (tr.inl : (Service.sum Listing).Trace).inr q' (a, w') :=
  ⟨_, runs_onService h.attempt.bind a⟩

/-- The sample's wallet logs in and registers a webhook, and the funding of its escrow is
delivered to it. -/
theorem deliveries_subscribed_sample : ∃ (hist : Backend.History)
    (ts : List (Job × BackendM JobResult)) (looked : Service.History) (webhook : WebhookRow),
    Nonempty (Subscription sampleSession hist ts looked webhook) := by
  obtain ⟨resp, a, hclock, hrun⟩ :=
    exists_sampleSession (Db.migrated.upsertEscrow 0 subscribedEscrow)
  have hescrow : (Db.migrated.upsertEscrow 0 subscribedEscrow).getEscrow 1 =
      some (subscribedEscrow.row 0) := by rfl
  obtain ⟨db, hreg, hrows, -⟩ := runs_register (E := openEnv)
    (w := ⟨Db.migrated.upsertEscrow 0 subscribedEscrow, ()⟩) ⟨"https://example.com/hook"⟩
    ⟨0, .replicate 32 7, 0⟩ hescrow (Or.inl rfl : EscrowRow.IsParty _ sampleClaims.sub) (by decide)
    (by decide) (by rfl)
  have hdec : sampleSession.jwtDecode "secret" sampleToken (sampleTime 20) =
      some sampleClaims := by
    have hfresh : sampleTime 20 / 1000000000 ≤ 1700003672 := by decide
    simp [sampleSession, hfresh]
  have hregister := hrun.run
    (x := .webhook (some sampleToken) (.ok (.register 1 ⟨"https://example.com/hook"⟩
      ⟨0, .replicate 32 7, 0⟩)))
    (fun token htoken _ => ⟨1, sampleVerify, by cases htoken; rfl⟩)
    (runs_webhook (Int.le_of_eq hclock) hdec (hreg.mono fun _ _ _ _ => unordered_of_handler))
  have hlist : db.listWebhooksForEscrow 1 =
      [Drawn.row ⟨0, .replicate 32 7, 0⟩ 1 sampleAddress "https://example.com/hook"] := by
    rw [Db.listWebhooksForEscrow, hrows]
    rfl
  have hcursor : db.indexerCursor = (0, none) := cursor_of_runs hreg
  obtain ⟨tr, d, q, db', hpoll⟩ := runs_fundedPoll hcursor hlist
  obtain ⟨q', hjob⟩ := runs_poll (hpoll.mono fun _ _ _ _ => unordered_of_handler)
    ⟨a.challenges, sampleTime 20⟩
  have hlast : ((tr ++ [⟨.spawnDelivery d, ()⟩] : Service.Trace).inl :
      (Service.sum Listing).Trace).inr = ((tr.inl : (Service.sum Listing).Trace).inr ++
        [⟨.inr (.inl (.spawnDelivery d)), ()⟩] : Backend.Trace) := by
    simp [Signature.Trace.inl, Signature.Trace.inr]
  rw [hlast] at hjob
  have hpolled := hregister.run (fun _ h => by cases h) hjob
  rw [List.map_append, ← List.append_assoc] at hpolled
  obtain ⟨_, _, n, _, _, _, looked, _, -, -, -, -, -, -, hsubscription⟩ :=
    deliveries_subscribed readsTokens_sampleSession hpolled (by decide)
      (by decide : sampleTime 20 ≤ DateTime.ofSeconds DateTime.maxSeconds) rfl rfl
  exact ⟨_, _, looked, n.webhook, hsubscription⟩

end Sample

end ConcordBackend

import ConcordBackend.Api.Authorization
import ConcordBackend.Api.Response
import ConcordBackend.Library.Simulation

/-!
# The secrets of webhooks

The secret a webhook's deliveries are signed with is shown once, in the answer to its
registration. What is stored of it reaches nobody: were the secrets in the database others, every
run of the service could have gone on just the same, answer by answer, and delivery by delivery
but for the signatures (`secrets_undisclosed`).
-/

namespace ConcordBackend

/-! ### Databases that differ in secrets -/

/-- The same webhook, but for its secret. -/
structure WebhookRow.Alike (w w' : WebhookRow) : Prop where
  id : w.id = w'.id
  escrowId : w.escrowId = w'.escrowId
  ownerAddress : w.ownerAddress = w'.ownerAddress
  url : w.url = w'.url
  createdAt : w.createdAt = w'.createdAt

theorem WebhookRow.Alike.refl (w : WebhookRow) : w.Alike w := ⟨rfl, rfl, rfl, rfl, rfl⟩

/-- The same database, but for the secrets of the webhooks. -/
structure Db.Alike (db db' : Db) : Prop where
  escrows : db.escrows = db'.escrows
  milestones : db.milestones = db'.milestones
  disputes : db.disputes = db'.disputes
  indexerCursor : db.indexerCursor = db'.indexerCursor
  webhooks : List.Forall₂ WebhookRow.Alike db.webhooks.rows db'.webhooks.rows

section Statements

variable {db db₂ : Db}

theorem Write.exec_alike (h : db.Alike db₂) (now : DateTime) (wr : Write) :
    Except.Alike Db.Alike (wr.exec now db) (wr.exec now db₂) := by
  obtain ⟨escrows, milestones, disputes, webhooks, cursor, mfk, dfk, wfk⟩ := db
  obtain ⟨escrows₂, milestones₂, disputes₂, webhooks₂, cursor₂, mfk₂, dfk₂, wfk₂⟩ := db₂
  obtain ⟨rfl, rfl, rfl, rfl, hwebhooks⟩ := h
  cases wr with
  | upsertMilestone a =>
    simp only [Write.exec, Db.upsertMilestone]
    split
    · exact .ok ⟨rfl, rfl, rfl, rfl, hwebhooks⟩
    · exact .error _
  | insertDispute e m raisedBy reason =>
    simp only [Write.exec, Db.insertDispute]
    split
    · exact .ok ⟨rfl, rfl, rfl, rfl, hwebhooks⟩
    · exact .error _
  | _ => exact .ok ⟨rfl, rfl, rfl, rfl, hwebhooks⟩

/-- The same ids are taken. -/
theorem Db.Alike.find?_isSome (h : db.Alike db₂) (id : Uuid) :
    (db.webhooks.find? id).isSome = (db₂.webhooks.find? id).isSome := by
  have hids : db.webhooks.rows.map WebhookRow.id = db₂.webhooks.rows.map WebhookRow.id := by
    rw [← List.forall₂_eq_eq_eq]
    exact List.rel_map (fun _ _ hw => hw.id) h.webhooks
  rw [Bool.eq_iff_iff, Option.isSome_iff_ne_none, Option.isSome_iff_ne_none]
  exact not_congr (by rw [Table.find?_eq_none, Table.find?_eq_none, hids])

end Statements

/-! ### What may differ -/

/-- The same delivery, but for its signature. -/
structure Delivery.Alike (d d' : Delivery) : Prop where
  url : d.url = d'.url
  timestamp : d.timestamp = d'.timestamp
  body : d.body = d'.body

/-- The same operation, but for the signature of a delivery. -/
inductive OpsAlike : ServiceOp → ServiceOp → Prop where
  | same (op : ServiceOp) : OpsAlike op op
  | delivery {d d' : Delivery} (h : d.Alike d') :
      OpsAlike (.spawnDelivery d) (.spawnDelivery d')

/-- The same answer, but for the signature of a delivery and the secrets of webhooks. -/
inductive AnswersAlike : Sigma Service.Reply → Sigma Service.Reply → Prop where
  | same (x : Sigma Service.Reply) : AnswersAlike x x
  | lookup {e : Int64} {rows rows' : List WebhookRow}
      (h : List.Forall₂ WebhookRow.Alike rows rows') :
      AnswersAlike ⟨.sql (.listWebhooksForEscrow e), .ok rows⟩
        ⟨.sql (.listWebhooksForEscrow e), .ok rows'⟩
  | delivery {d d' : Delivery} (h : d.Alike d') :
      AnswersAlike ⟨.spawnDelivery d, ()⟩ ⟨.spawnDelivery d', ()⟩

/-- What is alike but for secrets. -/
def secretless : Likeness Service := ⟨OpsAlike, AnswersAlike⟩

/-- The worlds of services whose databases are alike. -/
def World.Alike {E : Env} (w w' : World E) : Prop := w.db.Alike w'.db ∧ w.rpc = w'.rpc

section Simulation

variable {db db₂ : Db}

/-- A statement cannot tell the databases apart. -/
theorem Query.exec_alike (h : db.Alike db₂) (now : DateTime) (q : Query) :
    Except.Alike (fun x x' : q.Reply × Db =>
      AnswersAlike ⟨.sql q, .ok x.1⟩ ⟨.sql q, .ok x'.1⟩ ∧ x.2.Alike x'.2)
      (q.exec now db) (q.exec now db₂) := by
  cases q with
  | write wr =>
    have hwrite := Write.exec_alike h now wr
    simp only [Query.exec]
    generalize wr.exec now db = r at hwrite
    generalize wr.exec now db₂ = r₂ at hwrite
    cases hwrite with
    | ok hdb => exact .ok ⟨.same _, hdb⟩
    | error e => exact .error e
  | getEscrow id =>
    have hrow : db.getEscrow id = db₂.getEscrow id := by rw [Db.getEscrow, h.escrows, Db.getEscrow]
    simp only [Query.exec, hrow]
    exact .ok ⟨.same _, h⟩
  | listMilestones e =>
    have hrows : db.listMilestones e = db₂.listMilestones e := by
      rw [Db.listMilestones, h.milestones, Db.listMilestones]
    simp only [Query.exec, hrows]
    exact .ok ⟨.same _, h⟩
  | listWebhooksForEscrow e =>
    refine .ok ⟨.lookup (List.rel_filter ?_ h.webhooks), h⟩
    intro w w' hw
    simp [hw.escrowId]
  | insertWebhook webhook =>
    have htaken := h.find?_isSome webhook.id
    have hescrow : (db.escrows.find? webhook.escrowId).isSome =
        (db₂.escrows.find? webhook.escrowId).isSome := by rw [h.escrows]
    simp only [Query.exec, Db.insertWebhook, ← htaken]
    split
    · exact .error _
    split
    · exact .error _
    next hfree =>
      have hnone : db.webhooks.find? webhook.id = none := by simpa using hfree
      have hnone₂ : db₂.webhooks.find? webhook.id = none := by
        rw [htaken] at hfree
        simpa using hfree
      by_cases hfound : (db.escrows.find? webhook.escrowId).isSome
      · rw [dif_pos hfound, dif_pos (hescrow ▸ hfound)]
        refine .ok ⟨.same _, h.escrows, h.milestones, h.disputes, h.indexerCursor, ?_⟩
        rw [Table.rows_upsert_of_none hnone, Table.rows_upsert_of_none hnone₂]
        exact List.rel_append h.webhooks (.cons (.refl webhook) .nil)
      · rw [dif_neg hfound, dif_neg (hescrow ▸ hfound)]
        exact .error _
  | deleteWebhook webhookId owner =>
    let selects (w : WebhookRow) : Bool := decide (w.id = webhookId) && decide (w.ownerAddress = owner)
    have hmap : db.webhooks.rows.map selects = db₂.webhooks.rows.map selects := by
      rw [← List.forall₂_eq_eq_eq]
      refine List.rel_map (fun w w' hw => ?_) h.webhooks
      simp only [selects, hw.id, hw.ownerAddress]
    have hfound : (db.deleteWebhook webhookId owner).1 = (db₂.deleteWebhook webhookId owner).1 := by
      have hany := congrArg (List.any · id) hmap
      rwa [List.any_map, List.any_map] at hany
    have hkept : (db.deleteWebhook webhookId owner).2.Alike (db₂.deleteWebhook webhookId owner).2 := by
      refine ⟨h.escrows, h.milestones, h.disputes, h.indexerCursor, ?_⟩
      refine List.rel_filter (fun w w' hw => ?_) h.webhooks
      simp [hw.id, hw.ownerAddress]
    simp only [Query.exec]
    refine .ok ⟨?_, hkept⟩
    rw [hfound]
    exact .same _
  | getCursor =>
    simp only [Query.exec, h.indexerCursor]
    exact .ok ⟨.same _, h⟩
  | setCursor ledger token =>
    exact .ok ⟨.same _, h.escrows, h.milestones, h.disputes, rfl, h.webhooks⟩

variable {E : Env}

/-- A statement is answered alike, in whatever way it fails. -/
theorem sqlStep_alike {faulty : Query → Prop} {q : Query} {db' : Db} {r : Except SqlError q.Reply}
    (h : db.Alike db₂) (hstep : SqlStep faulty q db r db') :
    ∃ r₂ db₂', SqlStep faulty q db₂ r₂ db₂' ∧ AnswersAlike ⟨.sql q, r⟩ ⟨.sql q, r₂⟩ ∧
      db'.Alike db₂' := by
  cases hstep with
  | @ok now a _ hexec =>
    have hexec₂ := Query.exec_alike h now q
    rw [hexec] at hexec₂
    generalize hr₂ : q.exec now db₂ = r₂ at hexec₂
    cases hexec₂ with
    | ok hx => exact ⟨_, _, .ok hr₂, hx.1, hx.2⟩
  | @rejected now e hexec =>
    have hexec₂ := Query.exec_alike h now q
    rw [hexec] at hexec₂
    generalize hr₂ : q.exec now db₂ = r₂ at hexec₂
    cases hexec₂ with
    | error => exact ⟨_, _, .rejected hr₂, .same _, h⟩
  | fault hf => exact ⟨_, _, .fault hf, .same _, h⟩

theorem simulates_handler (E : Env) :
    Simulates secretless E.handler E.handler (World.Alike (E := E)) := by
  rintro op op' w v r w' hop ⟨hdb, hrpc⟩ hstep
  cases hop with
  | @delivery d d' hd => exact ⟨(), v, rfl, .delivery hd, hstep ▸ ⟨hdb, hrpc⟩⟩
  | same =>
    cases op with
    | sql q =>
      obtain ⟨r₂, db₂', hstep₂, hanswer, hdb'⟩ := sqlStep_alike hdb hstep.1
      exact ⟨r₂, ⟨db₂', v.rpc⟩, ⟨hstep₂, rfl⟩, hanswer, hdb', hstep.2.trans hrpc⟩
    | getLatestLedger =>
      obtain ⟨rfl, hlatest⟩ := hstep
      exact ⟨r, v, ⟨rfl, hrpc ▸ hlatest⟩, .same _, hdb, hrpc⟩
    | getEvents params =>
      obtain ⟨hsame, hserves⟩ := hstep
      refine ⟨r, ⟨v.db, w'.rpc⟩, ⟨rfl, ?_⟩, .same _, hsame ▸ hdb, rfl⟩
      rw [← hrpc]
      exact hserves
    | spawnDelivery d => exact ⟨r, v, rfl, .same _, hstep ▸ ⟨hdb, hrpc⟩⟩
    | utcNow => exact ⟨r, v, rfl, .same _, hstep ▸ ⟨hdb, hrpc⟩⟩

/-- Only the rows of a lookup may come in another order. -/
theorem unordered_of_ne {op : ServiceOp} (hop : ¬ ∃ e, op = .sql (.listWebhooksForEscrow e)) :
    E.unordered op = E.handler op := by
  cases op with
  | sql q =>
    cases q with
    | listWebhooksForEscrow e => exact absurd ⟨e, rfl⟩ hop
    | _ => rfl
  | _ => rfl

/-- The provider and the database cannot be told apart either where lookups come in any order. -/
theorem simulates_unordered (E : Env) :
    Simulates secretless E.unordered E.unordered (World.Alike (E := E)) := by
  intro op op' w v r w' hop hR hstep
  cases hop with
  | delivery hd => exact simulates_handler E _ _ w v r w' (.delivery hd) hR hstep
  | same =>
    by_cases hlookup : ∃ e, op = .sql (.listWebhooksForEscrow e)
    · obtain ⟨e, rfl⟩ := hlookup
      obtain ⟨r₀, h₀, hr⟩ := hstep
      obtain ⟨r₂, v', h₂, hanswer, hR'⟩ :=
        simulates_handler E (.sql (.listWebhooksForEscrow e)) _ w v r₀ w' (.same _) hR h₀
      rcases r₀ with err | rows
      · obtain rfl := hr
        cases hanswer with
        | same => exact ⟨_, v', ⟨_, h₂, rfl⟩, .same _, hR'⟩
      · obtain ⟨rows', rfl, hperm⟩ := hr
        cases hanswer with
        | same => exact ⟨_, v', ⟨_, h₂, rows', rfl, hperm⟩, .same _, hR'⟩
        | lookup hrows =>
          obtain ⟨rows₂, hrows₂, hperm₂⟩ := List.perm_comp_forall₂ hperm hrows
          exact ⟨_, v', ⟨_, h₂, rows₂, rfl, hperm₂⟩, .lookup hrows₂, hR'⟩
    · rw [unordered_of_ne hlookup] at hstep ⊢
      exact simulates_handler E _ _ w v r w' (.same op) hR hstep

theorem simulates_listing (E : Env) :
    Simulates (.same Listing) E.listing E.listing (World.Alike (E := E)) := by
  rintro op op' w v r w' rfl ⟨hdb, hrpc⟩ hstep
  cases op with
  | escrows filter =>
    obtain ⟨rfl, hpage⟩ := hstep
    refine ⟨r, v, ⟨rfl, ?_⟩, rfl, hdb, hrpc⟩
    rcases r with e | page
    · exact hpage
    · refine ⟨hpage.1, ?_⟩
      change Page _ (v.db.escrows.rows.filter _) _ _ _
      rw [← hdb.escrows]
      exact hpage.2
  | disputes status limit offset =>
    obtain ⟨rfl, hpage⟩ := hstep
    refine ⟨r, v, ⟨rfl, ?_⟩, rfl, hdb, hrpc⟩
    rcases r with e | page
    · exact hpage
    · refine ⟨hpage.1, ?_⟩
      change Page _ (v.db.disputes.rows.filter _) _ _ _
      rw [← hdb.disputes]
      exact hpage.2

end Simulation

/-! ### Programs that do not look at secrets -/

section Programs

variable {crates : Crates}

/-- What is looked up is alike. -/
theorem lookup_alike {e : Int64} {r r' : Except SqlError (List WebhookRow)}
    (h : AnswersAlike ⟨.sql (.listWebhooksForEscrow e), r⟩ ⟨.sql (.listWebhooksForEscrow e), r'⟩) :
    Except.Alike (List.Forall₂ WebhookRow.Alike) r r' := by
  cases h with
  | same =>
    rcases r with err | rows
    · exact .error err
    · exact .ok (List.forall₂_same.mpr fun w _ => .refl w)
  | lookup hrows => exact .ok hrows

/-- Of all other operations only the same answers are alike. -/
theorem eq_of_answersAlike {op : ServiceOp} (hop : ∀ e, op ≠ .sql (.listWebhooksForEscrow e))
    (r r' : op.Reply) (h : AnswersAlike ⟨op, r⟩ ⟨op, r'⟩) : r = r' := by
  cases h with
  | same => rfl
  | lookup => exact absurd rfl (hop _)
  | delivery => rfl

/-- A program that looks no webhooks up. -/
theorem like_of_only {ε α : Type} {p : Prog Service ε α}
    (hp : p.Only fun op : ServiceOp => ∀ e, op ≠ .sql (.listWebhooksForEscrow e)) :
    p.Like secretless Eq p :=
  .of_only (fun op _ => OpsAlike.same op) (fun _ hop => eq_of_answersAlike hop) hp

theorem spawnDeliveries_like {timestamp : Int} {body : String} {rows rows' : List WebhookRow}
    (h : List.Forall₂ WebhookRow.Alike rows rows') :
    (spawnDeliveries crates timestamp body rows).Like secretless Eq
      (spawnDeliveries crates timestamp body rows') := by
  induction h with
  | nil => exact .done rfl
  | cons hw _ ih => exact .call (OpsAlike.delivery ⟨hw.url, rfl, rfl⟩) fun _ _ _ => ih

theorem notifyWebhooks_like (e : Int64) (name : String) :
    (notifyWebhooks crates e name).Like secretless Eq (notifyWebhooks crates e name) := by
  refine .call (OpsAlike.same _) fun r r' hr => ?_
  cases lookup_alike hr with
  | error err => exact .done rfl
  | ok hrows =>
    have hclock : ∀ e, ServiceOp.utcNow ≠ .sql (.listWebhooksForEscrow e) := by rintro e ⟨⟩
    refine .call (OpsAlike.same _) fun now now' hnow => ?_
    obtain rfl := eq_of_answersAlike hclock now now' hnow
    exact spawnDeliveries_like hrows

theorem runEvent_like (event : RpcEvent) :
    (runEvent crates event).Like secretless Eq (runEvent crates event) := by
  refine (like_of_only ((toProg_onlyWrites _).mono ?_)).bind_eq fun o => ?_
  · rintro op ⟨wr, rfl⟩ e ⟨⟩
  · rcases o with _ | ⟨e, name⟩
    · exact .done rfl
    · exact notifyWebhooks_like e name

theorem runPage_like (events : List RpcEvent) (n : Nat) :
    (runPage crates events n).Like secretless Eq (runPage crates events n) := by
  induction events generalizing n with
  | nil => exact .done rfl
  | cons event events ih =>
    unfold runPage
    split
    · exact ih n
    · exact (runEvent_like event).attempt.bind fun _ _ _ => ih (n + 1)

theorem pollOnce_like (contractId : String) :
    (pollOnce crates contractId).Like secretless Eq (pollOnce crates contractId) := by
  refine (like_of_only (sql_only (by rintro e ⟨⟩))).bind_eq ?_
  rintro ⟨lastLedger, lastCursor⟩
  have hstart : (startLedgerFor lastLedger lastCursor).Only
      fun op : ServiceOp => ∀ e, op ≠ .sql (.listWebhooksForEscrow e) := by
    unfold startLedgerFor
    split
    · exact Prog.Only.bind ⟨(by rintro e ⟨⟩), Prog.ofExcept_only⟩ fun _ => trivial
    · trivial
  refine (like_of_only hstart).bind_eq fun startLedger => ?_
  have hevents : (getEvents contractId startLedger lastCursor pageLimit).Only
      fun op : ServiceOp => ∀ e, op ≠ .sql (.listWebhooksForEscrow e) :=
    ⟨(by rintro e ⟨⟩), Prog.ofExcept_only⟩
  refine (like_of_only hevents).bind_eq fun result => ?_
  refine (runPage_like result.events 0).bind_eq fun processed => ?_
  refine (like_of_only ?_).bind_eq fun _ => .done rfl
  unfold storeCursor
  split
  · exact sql_only (by rintro e ⟨⟩)
  · trivial

theorem getEscrow_like (id : Int64) : (getEscrow id).Like secretless Eq (getEscrow id) := by
  refine like_of_only ((getEscrow_only id).mono ?_)
  rintro op (_ | _) e ⟨⟩

variable (texts : TextCrates)

/-- Results that are answered the same. -/
def SameResponse (result result' : JobResult) : Prop :=
  result.respond texts = result'.respond texts

theorem registerRequest_only {address : String} {e : Int64} {req : RegisterWebhookRequest}
    {drawn : Drawn} : ((WebhookRequest.register e req drawn).serve address).Only
      fun op : ServiceOp => ∀ e, op ≠ .sql (.listWebhooksForEscrow e) := by
  rw [serve_register]
  split_ifs
  · refine ⟨(by rintro e ⟨⟩), fun found => ?_⟩
    rcases found with err | _ | escrow
    · trivial
    · trivial
    · change Prog.Only _ (if _ then _ else _)
      split_ifs
      · refine ⟨(by rintro e ⟨⟩), fun inserted => ?_⟩
        rcases inserted with err | row
        · trivial
        · trivial
      · trivial
  · trivial

theorem webhookRequest_like (address : String) (req : WebhookRequest) :
    ((req.serve address).bind fun resp => (.done (.webhook resp) : ApiM JobResult)).Like secretless
      (SameResponse texts) ((req.serve address).bind fun resp => .done (.webhook resp)) := by
  cases req with
  | register e req drawn =>
    exact (like_of_only registerRequest_only).bind_eq fun resp => .done rfl
  | list e =>
    rw [serve_list]
    refine .call (OpsAlike.same _) fun r r' hr => ?_
    cases lookup_alike hr with
    | error err => exact .fail _
    | @ok rows rows' hrows =>
      refine .done ?_
      have hown : List.Forall₂ WebhookRow.Alike (rows.filter fun w => w.ownerAddress = address)
          (rows'.filter fun w => w.ownerAddress = address) := by
        refine List.rel_filter (fun w w' hw => ?_) hrows
        simp [hw.ownerAddress]
      have hjson : (rows.filter fun w => w.ownerAddress = address).map (·.toJson texts) =
          (rows'.filter fun w => w.ownerAddress = address).map (·.toJson texts) := by
        rw [← List.forall₂_eq_eq_eq]
        refine List.rel_map (fun w w' hw => ?_) hown
        simp only [WebhookRow.toJson, hw.id, hw.escrowId, hw.ownerAddress, hw.url, hw.createdAt]
      exact congrArg (fun values => some (Response.mk 200 (.json (.arr values)))) hjson
  | delete e id =>
    have honly : ((WebhookRequest.delete e id).serve address).Only
        fun op : ServiceOp => ∀ e, op ≠ .sql (.listWebhooksForEscrow e) := by
      rw [serve_delete]
      refine ⟨(by rintro e ⟨⟩), fun deleted => ?_⟩
      rcases deleted with err | _ | _
      · trivial
      · trivial
      · trivial
    exact (like_of_only honly).bind_eq fun resp => .done rfl

/-- What is alike of the whole service: the secrets of webhooks and the signatures of deliveries
are all that may differ. -/
def backendLikeness : Likeness Backend :=
  (Likeness.same AuthService).sum (secretless.sum (Likeness.same Listing))

theorem onService_like {ε α : Type} {A : α → α → Prop} {p p' : Prog Service ε α}
    (h : p.Like secretless A p') : (onService p).Like backendLikeness A (onService p') :=
  Prog.Like.inr (Prog.Like.inl h)

theorem onAuth_like {α : Type} (p : AuthM α) : (onAuth p).Like backendLikeness Eq (onAuth p) :=
  (Prog.Like.refl p).inl

theorem onLists_like {α : Type} (p : Prog Listing AppError α) :
    (onLists p).Like backendLikeness Eq (onLists p) :=
  Prog.Like.inr (Prog.Like.inr (Prog.Like.refl p))

/-- No job looks at a secret. -/
theorem job_like (crates : SessionCrates) (indexer : Crates) (jwtSecret : String) (job : Job) :
    (Job.serve crates indexer jwtSecret job).Like backendLikeness (SameResponse texts)
      (Job.serve crates indexer jwtSecret job) := by
  have hsame : ∀ a a' : JobResult, a = a' → SameResponse texts a a' := fun _ _ h => h ▸ rfl
  have hrejected : ∀ rejection, (Prog.done (.rejected rejection) : BackendM JobResult).Like
      backendLikeness (SameResponse texts) (.done (.rejected rejection)) := fun _ => .done rfl
  cases job with
  | auth req =>
    rcases req with rejection | req
    · exact hrejected rejection
    · exact (onAuth_like _).mono hsame
  | escrows query =>
    rcases query with rejection | query
    · exact hrejected rejection
    · exact (onLists_like _).mono hsame
  | escrow id =>
    rcases id with rejection | id
    · exact hrejected rejection
    · exact onService_like ((getEscrow_like id).bind_eq fun detail => .done rfl)
  | disputes query =>
    rcases query with rejection | query
    · exact hrejected rejection
    · exact (onLists_like _).mono hsame
  | webhook bearer req =>
    refine (onAuth_like _).bind_eq fun address => ?_
    rcases req with rejection | req
    · exact hrejected rejection
    · exact onService_like (webhookRequest_like texts address req)
  | poll contractId =>
    refine onService_like ((pollOnce_like contractId).attempt.bind fun r r' _ => .done rfl)

end Programs

/-! ### The service -/

/-- The delivery of an answered operation, without its signature. -/
def unsigned? : Sigma Backend.Reply → Option (String × Int × String)
  | ⟨.inr (.inl (.spawnDelivery d)), _⟩ => some (d.url, d.timestamp, d.body)
  | _ => none

theorem unsigned?_eq {x x' : Sigma Backend.Reply} (h : backendLikeness.Answer x x') :
    unsigned? x = unsigned? x' := by
  obtain ⟨op | op | op, r⟩ := x
  · obtain ⟨op' | op' | op', r'⟩ := x'
    · rfl
    · exact h.elim
    · exact h.elim
  · obtain ⟨op' | op' | op', r'⟩ := x'
    · exact h.elim
    · have hanswer : AnswersAlike ⟨op, r⟩ ⟨op', r'⟩ := h
      cases hanswer with
      | same => rfl
      | lookup => rfl
      | delivery hd => simp only [unsigned?, hd.url, hd.timestamp, hd.body]
    · exact h.elim
  · obtain ⟨op' | op' | op', r'⟩ := x'
    · exact h.elim
    · exact h.elim
    · rfl

theorem respond_eq {texts : TextCrates} {q q' : BackendM JobResult}
    (h : q.Like backendLikeness (SameResponse texts) q') : respond texts q = respond texts q' := by
  cases h with
  | done hresult => exact hresult
  | fail e => rfl
  | call => rfl

/-- What the clients receive, one response for each job. -/
def responses (texts : TextCrates) (ts : List (Job × BackendM JobResult)) :
    List (Job × Option Response) := ts.map fun t => (t.1, respond texts t.2)

/-- **Stored secrets are not disclosed.** Take any run of the service, and a database that is the
same but for the secrets of its webhooks. From there the service may run with the same requests,
each answered the same response, and the same deliveries but for their signatures. -/
theorem secrets_undisclosed (texts : TextCrates) {crates : SessionCrates} {indexer : Crates}
    {jwtSecret : String} {E : Env} {a a' : AuthWorld} {w w' v : World E} {hist : Backend.History}
    {ts : List (Job × BackendM JobResult)}
    (h : Serves E.backend (Job.serve crates indexer jwtSecret) (a, w) hist ts (a', w'))
    (hsame : w.Alike v) :
    ∃ (hist' : Backend.History) (ts' : List (Job × BackendM JobResult)) (v' : World E),
      Serves E.backend (Job.serve crates indexer jwtSecret) (a, v) hist' ts' (a', v') ∧
      w'.Alike v' ∧ responses texts ts = responses texts ts' ∧
      hist.map (fun x => (x.1, unsigned? x.2)) = hist'.map (fun x => (x.1, unsigned? x.2)) := by
  have hsim : Simulates backendLikeness E.backend E.backend
      (Simulates.Both Eq (World.Alike (E := E))) :=
    (Simulates.same authHandler).first.sum
      ((simulates_unordered E).sum (simulates_listing E)).second
  have hstart : Simulates.Both Eq (World.Alike (E := E)) (a, w) (a, v) := ⟨rfl, hsame⟩
  obtain ⟨hist', ts', ⟨a₂, v'⟩, hrun, ⟨ha, hw⟩, hhist, hts⟩ :=
    h.simulate hsim (job_like texts crates indexer jwtSecret) hstart
  obtain rfl : a' = a₂ := ha
  refine ⟨hist', ts', v', hrun, hw, ?_, ?_⟩
  · rw [responses, responses, ← List.forall₂_eq_eq_eq]
    exact List.rel_map (fun t t' ht => Prod.ext ht.1 (respond_eq ht.2)) hts
  · rw [← List.forall₂_eq_eq_eq]
    exact List.rel_map (fun x x' hx => Prod.ext hx.1 (unsigned?_eq hx.2)) hhist

/-- A database with one webhook of the sample's wallet, whose secret is `secret`. -/
def secretDb (secret : String) : Db :=
  { ownedDb with
    webhooks := ⟨[⟨0, 1, sampleAddress, "https://example.com/hook", 0, secret⟩],
      List.nodup_singleton _⟩
    webhooks_fk := fun r hr => by
      obtain rfl := List.mem_singleton.mp hr
      rfl }

/-- The wallet of the sample lists its webhook, and is answered the same whichever secret it
has. -/
theorem secrets_undisclosed_sample : ∃ resp rows hist ts w,
    rows ≠ [] ∧ Serves openEnv.backend (Job.serve sampleSession sampleCrates "secret")
      (⟨.new, sampleTime 0⟩, ⟨secretDb "b", ()⟩) hist ts w ∧
      responses sampleTexts (sampleJobs resp rows) = responses sampleTexts ts := by
  obtain ⟨resp, a, -, hrun⟩ := exists_sampleSession (secretDb "a")
  have hsame : (World.mk (secretDb "a") () : World openEnv).Alike ⟨secretDb "b", ()⟩ :=
    ⟨⟨rfl, rfl, rfl, rfl, .cons ⟨rfl, rfl, rfl, rfl, rfl⟩ .nil⟩, rfl⟩
  obtain ⟨hist, ts, w, hserves, -, hresponses, -⟩ :=
    secrets_undisclosed sampleTexts hrun.serves hsame
  refine ⟨resp, _, hist, ts, _, ?_, hserves, hresponses⟩
  exact List.ne_nil_of_mem (List.mem_filter.mpr ⟨List.mem_singleton_self _, by decide⟩)

end ConcordBackend

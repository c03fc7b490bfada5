import ConcordBackend.Auth
import ConcordBackend.Indexer.Failure
import ConcordBackend.Indexer.Stored
import ConcordBackend.Library.Rely

/-!
# The webhook endpoints

`register_webhook`, `list_webhooks` and `delete_webhook` are programs over the operations of
the service, for a request of an authenticated address. What `insert_webhook` draws for a new
row comes with the request that draws it.

`register_webhook` checks the parties of the escrow in one statement and inserts in another.
Nothing locks the row in between, and nothing has to: no statement removes an escrow or
changes its parties (`View.Extends`), so what the check has seen stays true. With that as the
rely, every request is safe on its own, the indexer's processing of events included, and
every webhook belongs to a party of its escrow (`webhooks_belong_to_parties`).
-/

namespace ConcordBackend

/-! ### The handlers -/

/-- Code of the endpoints over the service. -/
abbrev ApiM := Prog Service AppError

/-- Send a statement; its failure answers the request. -/
def query (q : Query) : ApiM q.Reply :=
  .call (.sql q) fun
    | .ok a => .done a
    | .error e => .fail (.database e)

/-- `RegisterWebhookRequest`. -/
structure RegisterWebhookRequest where
  url : String

/-- `WebhookCreated`. -/
structure WebhookCreated where
  id : Uuid
  escrowId : Int64
  ownerAddress : String
  url : String
  createdAt : DateTime
  secret : String
  deriving DecidableEq, Repr

/-- `From<WebhookRow>`. -/
def WebhookCreated.ofRow (w : WebhookRow) : WebhookCreated where
  id := w.id
  escrowId := w.escrowId
  ownerAddress := w.ownerAddress
  url := w.url
  createdAt := w.createdAt
  secret := w.secret

/-- What `insert_webhook` draws: an id, the bytes of the secret, and the time. -/
structure Drawn where
  id : Uuid
  secretBytes : Vector UInt8 32
  now : DateTime

/-- The row `insert_webhook` inserts. -/
def Drawn.row (drawn : Drawn) (escrowId : Int64) (ownerAddress url : String) : WebhookRow where
  id := drawn.id
  escrowId := escrowId
  ownerAddress := ownerAddress
  url := url
  createdAt := drawn.now
  secret := hexEncode drawn.secretBytes.toList

/-- `insert_webhook`. -/
def insertWebhook (escrowId : Int64) (ownerAddress url : String) (drawn : Drawn) :
    ApiM WebhookRow :=
  query (.insertWebhook (drawn.row escrowId ownerAddress url))

/-- `str::starts_with`. -/
def startsWith (s pat : String) : Bool := pat.toList.isPrefixOf s.toList

/-- The url of a webhook is an http(s) one. -/
def IsHttp (url : String) : Prop := startsWith url "https://" = true ∨ startsWith url "http://" = true

instance (url : String) : Decidable (IsHttp url) := inferInstanceAs (Decidable (_ ∨ _))

/-- The address is the client, the provider or the arbitrator. -/
def EscrowRow.IsParty (escrow : EscrowRow) (address : String) : Prop :=
  address = escrow.client ∨ address = escrow.provider ∨ address = escrow.arbitrator

instance (escrow : EscrowRow) (address : String) : Decidable (escrow.IsParty address) :=
  inferInstanceAs (Decidable (_ ∨ _))

/-- `register_webhook` once it has found the escrow. -/
def registerFor (address : String) (escrow : EscrowRow) (escrowId : Int64)
    (req : RegisterWebhookRequest) (drawn : Drawn) : ApiM WebhookCreated := do
  if address ≠ escrow.client ∧ address ≠ escrow.provider ∧ address ≠ escrow.arbitrator then
    .fail (.forbidden "only the escrow's client, provider, or arbitrator may register a webhook")
  else
    let webhook ← insertWebhook escrowId address req.url drawn
    return .ofRow webhook

/-- `register_webhook`. -/
def registerWebhook (address : String) (escrowId : Int64) (req : RegisterWebhookRequest)
    (drawn : Drawn) : ApiM WebhookCreated := do
  if !startsWith req.url "https://" && !startsWith req.url "http://" then
    .fail (.badRequest "url must be http(s)")
  else
    let escrow ← okOr (← query (.getEscrow escrowId)) .notFound
    registerFor address escrow escrowId req drawn

/-- `list_webhooks`. -/
def listWebhooks (address : String) (escrowId : Int64) : ApiM (List WebhookRow) := do
  let webhooks : List WebhookRow ← query (.listWebhooksForEscrow escrowId)
  return webhooks.filter fun w => w.ownerAddress = address

/-- `delete_webhook`, which does not read the escrow of its path. -/
def deleteWebhook (address : String) (_escrowId : Int64) (webhookId : Uuid) : ApiM Unit := do
  let deleted : Bool ← query (.deleteWebhook webhookId address)
  if !deleted then .fail .notFound else return ()

/-- The requests to the webhook endpoints. -/
inductive WebhookRequest where
  | register (escrowId : Int64) (req : RegisterWebhookRequest) (drawn : Drawn)
  | list (escrowId : Int64)
  | delete (escrowId : Int64) (webhookId : Uuid)

/-- What the webhook endpoints answer. -/
inductive WebhookResponse where
  | created (webhook : WebhookCreated)
  | listed (webhooks : List WebhookRow)
  | deleted

/-- The handler of a request of an address. -/
def WebhookRequest.serve (address : String) : WebhookRequest → ApiM WebhookResponse
  | .register escrowId req drawn =>
    (registerWebhook address escrowId req drawn).bind fun webhook => .done (.created webhook)
  | .list escrowId => (listWebhooks address escrowId).bind fun webhooks => .done (.listed webhooks)
  | .delete escrowId webhookId =>
    (deleteWebhook address escrowId webhookId).bind fun _ => .done .deleted

section Requests

variable (address : String) (escrowId : Int64)

/-- The answer to a registration once the parties are checked. -/
def insertFor (webhook : WebhookRow) : ApiM WebhookResponse :=
  .call (.sql (.insertWebhook webhook)) fun
    | .ok webhook => .done (.created (.ofRow webhook))
    | .error e => .fail (.database e)

private theorem registerFor_eq (escrow : EscrowRow) (req : RegisterWebhookRequest)
    (drawn : Drawn) :
    ((registerFor address escrow escrowId req drawn).bind fun webhook => .done (.created webhook)) =
      if escrow.IsParty address then insertFor (drawn.row escrowId address req.url)
      else .fail (.forbidden
        "only the escrow's client, provider, or arbitrator may register a webhook") := by
  have hparty : (address ≠ escrow.client ∧ address ≠ escrow.provider ∧
      address ≠ escrow.arbitrator) ↔ ¬ escrow.IsParty address := by
    simp [EscrowRow.IsParty]
  by_cases hp : escrow.IsParty address
  · rw [registerFor, if_neg (mt hparty.mp (not_not_intro hp)), if_pos hp]
    change Prog.call _ _ = Prog.call _ _
    congr 1
    funext r
    rcases r with e | webhook
    · rfl
    · rfl
  · rw [registerFor, if_pos (hparty.mpr hp), if_neg hp]
    rfl

/-- A registration, statement by statement. -/
theorem serve_register (req : RegisterWebhookRequest) (drawn : Drawn) :
    (WebhookRequest.register escrowId req drawn).serve address =
      if IsHttp req.url then
        .call (.sql (.getEscrow escrowId)) fun
          | .ok (some escrow) =>
            if escrow.IsParty address then insertFor (drawn.row escrowId address req.url)
            else .fail (.forbidden
              "only the escrow's client, provider, or arbitrator may register a webhook")
          | .ok none => .fail .notFound
          | .error e => .fail (.database e)
      else .fail (.badRequest "url must be http(s)") := by
  have hurl : (!startsWith req.url "https://" && !startsWith req.url "http://") = true ↔
      ¬ IsHttp req.url := by simp [IsHttp]
  by_cases hhttp : IsHttp req.url
  · rw [WebhookRequest.serve, registerWebhook, if_neg (mt hurl.mp (not_not_intro hhttp)),
      if_pos hhttp]
    change Prog.call _ _ = Prog.call _ _
    congr 1
    funext r
    rcases r with e | _ | escrow
    · rfl
    · rfl
    · exact registerFor_eq address escrowId escrow req drawn
  · rw [WebhookRequest.serve, registerWebhook, if_pos (hurl.mpr hhttp), if_neg hhttp]
    rfl

/-- A list, statement by statement. -/
theorem serve_list : (WebhookRequest.list escrowId).serve address =
    .call (.sql (.listWebhooksForEscrow escrowId)) fun
      | .ok webhooks => .done (.listed (webhooks.filter fun w => w.ownerAddress = address))
      | .error e => .fail (.database e) := by
  change Prog.call _ _ = Prog.call _ _
  congr 1
  funext r
  rcases r with e | webhooks
  · rfl
  · rfl

/-- A deletion, statement by statement. -/
theorem serve_delete (webhookId : Uuid) : (WebhookRequest.delete escrowId webhookId).serve address =
    .call (.sql (.deleteWebhook webhookId address)) fun
      | .ok true => .done .deleted
      | .ok false => .fail .notFound
      | .error e => .fail (.database e) := by
  change Prog.call _ _ = Prog.call _ _
  congr 1
  funext r
  rcases r with e | _ | _
  · rfl
  · rfl
  · rfl

end Requests

/-! ### Parties -/

/-- The escrow exists, and the address is one of its parties. -/
def Db.HasParty (db : Db) (escrowId : Int64) (address : String) : Prop :=
  ∃ escrow, db.getEscrow escrowId = some escrow ∧ escrow.IsParty address

/-- Every webhook is for an escrow its owner is a party of, and its url is an http(s) one. -/
def Db.WebhooksOfParties (db : Db) : Prop :=
  ∀ webhook ∈ db.webhooks.rows,
    db.HasParty webhook.escrowId webhook.ownerAddress ∧ IsHttp webhook.url

/-- The parties of an escrow are columns that only its insertion sets. -/
theorem Db.HasParty.of_extends {db db' : Db} {e : Int64} {address : String}
    (h : db.HasParty e address) (hext : db.view.Extends db'.view) : db'.HasParty e address := by
  obtain ⟨escrow, hrow, hparty⟩ := h
  have hview : db.view.escrow e = some escrow.unclocked :=
    congrArg (Option.map EscrowRow.unclocked) hrow
  obtain ⟨r, hr, hkeeps⟩ := hext.escrow e _ hview
  obtain ⟨escrow', hrow', rfl⟩ := Option.map_eq_some_iff.mp hr
  refine ⟨escrow', hrow', ?_⟩
  have hsame : ∀ a, escrow'.unclocked.IsParty a ↔ escrow.unclocked.IsParty a := by
    rw [hkeeps]
    exact fun a => Iff.rfl
  exact (hsame address).mpr hparty

/-- An insertion that succeeds appends its row, for an escrow that exists. -/
theorem Db.insertWebhook_inv {db db' : Db} {webhook : WebhookRow}
    (h : db.insertWebhook webhook = .ok db') :
    db'.webhooks.rows = db.webhooks.rows ++ [webhook] ∧ db'.escrows = db.escrows := by
  unfold Db.insertWebhook at h
  split_ifs at h with hurl hold hescrow
  have hnone : db.webhooks.find? webhook.id = none := by simpa using hold
  obtain rfl := Except.ok.inj h
  exact ⟨Table.rows_upsert_of_none hnone _ _ _, rfl⟩

/-- What a successful insertion did. -/
theorem insertWebhook_of_ok {faulty : Query → Prop} {db db' : Db} {webhook reply : WebhookRow}
    (h : SqlStep faulty (.insertWebhook webhook) db (.ok reply) db') :
    reply = webhook ∧ db.insertWebhook webhook = .ok db' := by
  obtain ⟨now, hexec⟩ := h.ok_inv
  rw [Query.exec] at hexec
  rcases hins : db.insertWebhook webhook with e | db₁
  · rw [hins] at hexec
    cases hexec
  · rw [hins] at hexec
    obtain ⟨hreply, rfl⟩ := Prod.mk.inj (Except.ok.inj hexec)
    exact ⟨hreply.symm, rfl⟩

/-- What a rejected insertion was rejected for. -/
theorem insertWebhook_of_rejected {now : DateTime} {db : Db} {webhook : WebhookRow} {e : SqlError}
    (h : Query.exec now db (.insertWebhook webhook) = .error e) :
    db.insertWebhook webhook = .error e := by
  rw [Query.exec] at h
  rcases hins : db.insertWebhook webhook with e' | db'
  · rw [hins] at h
    obtain rfl := Except.error.inj h
    rfl
  · rw [hins] at h
    cases h

section Invariant

variable {E : Env} {crates : Crates} {w w' : World E}

/-- No operation removes an escrow or changes its parties. -/
theorem handler_extends {op : ServiceOp} {r : op.Reply} (h : E.handler op w r w') :
    w.db.view.Extends w'.db.view := by
  rw [(handler_spec h).1]
  exact View.extends_run _ _

/-- The operations that insert and delete webhooks. -/
inductive WritesWebhooks : ServiceOp → Prop where
  | insert (webhook : WebhookRow) : WritesWebhooks (.sql (.insertWebhook webhook))
  | delete (id : Uuid) (owner : String) : WritesWebhooks (.sql (.deleteWebhook id owner))

/-- No other operation touches the webhooks. -/
theorem webhooks_of_handler {op : ServiceOp} {r : op.Reply} (h : E.handler op w r w')
    (hop : ¬ WritesWebhooks op) : w'.db.webhooks = w.db.webhooks := by
  cases op with
  | sql q =>
    obtain ⟨hstep, -⟩ := h
    rcases r with e | a
    · rw [hstep.error_inv.1]
    obtain ⟨now, hexec⟩ := hstep.ok_inv
    cases q with
    | write wr => exact (Write.exec_frame (Query.exec_write hexec)).1
    | insertWebhook webhook => exact absurd (.insert webhook) hop
    | deleteWebhook id owner => exact absurd (.delete id owner) hop
    | _ => exact (congrArg Db.webhooks (Prod.mk.inj (Except.ok.inj hexec)).2).symm
  | getLatestLedger => exact congrArg (Db.webhooks ∘ World.db) h.1
  | getEvents params => exact congrArg Db.webhooks h.1
  | spawnDelivery d => exact congrArg (Db.webhooks ∘ World.db) h
  | utcNow => exact congrArg (Db.webhooks ∘ World.db) h

/-- A webhook in the table was there before the operation, or the operation inserted it. -/
theorem handler_webhooks {op : ServiceOp} {r : op.Reply} (h : E.handler op w r w')
    {webhook : WebhookRow} (hmem : webhook ∈ w'.db.webhooks.rows) :
    webhook ∈ w.db.webhooks.rows ∨ op = .sql (.insertWebhook webhook) := by
  by_cases hop : WritesWebhooks op
  · cases hop with
    | insert new =>
      rcases r with e | reply
      · rw [h.1.error_inv.1] at hmem
        exact Or.inl hmem
      · rw [(Db.insertWebhook_inv (insertWebhook_of_ok h.1).2).1] at hmem
        rcases List.mem_append.mp hmem with hmem | hmem
        · exact Or.inl hmem
        · rw [List.mem_singleton.mp hmem]
          exact Or.inr rfl
    | delete id owner =>
      rcases r with e | deleted
      · rw [h.1.error_inv.1] at hmem
        exact Or.inl hmem
      · obtain ⟨now, hexec⟩ := h.1.ok_inv
        rw [← (Prod.mk.inj (Except.ok.inj hexec)).2] at hmem
        exact Or.inl (List.mem_of_mem_filter hmem)
  · rw [webhooks_of_handler h hop] at hmem
    exact Or.inl hmem

/-- A webhook stays with a party, and an operation that inserts one for a party adds no other. -/
theorem webhooksOfParties_of_handler {op : ServiceOp} {r : op.Reply} (h : E.handler op w r w')
    (hw : w.db.WebhooksOfParties)
    (hinsert : ∀ webhook, op = .sql (.insertWebhook webhook) →
      w.db.HasParty webhook.escrowId webhook.ownerAddress ∧ IsHttp webhook.url) :
    w'.db.WebhooksOfParties := by
  intro webhook hmem
  have hext := handler_extends h
  rcases handler_webhooks h hmem with hold | hop
  · exact ⟨(hw webhook hold).1.of_extends hext, (hw webhook hold).2⟩
  · exact ⟨(hinsert webhook hop).1.of_extends hext, (hinsert webhook hop).2⟩

end Invariant

/-! ### Requests and indexers side by side -/

/-- What runs side by side: the webhook requests of authenticated addresses, and the processing
of events. -/
inductive Task where
  | webhook (address : String) (req : WebhookRequest)
  | index (events : List RpcEvent)

/-- How a task ends. -/
inductive TaskResult where
  | answered (answer : Except AppError WebhookResponse)
  | indexed (processed : Except Error Nat)

/-- The program of a task. -/
def Task.serve (crates : Crates) : Task → Prog Service Empty TaskResult
  | .webhook address req => (req.serve address).attempt.bind fun answer => .done (.answered answer)
  | .index events =>
    (runPage crates events 0).attempt.bind fun processed => .done (.indexed processed)

section Safety

variable {E : Env} {crates : Crates} {ε α : Type}

/-- The webhooks stay with parties, and no task undoes what another has seen of an escrow. -/
abbrev KeepsParties (p : Prog Service ε α) (w : World E) : Prop :=
  Safe E.handler (fun w => w.db.WebhooksOfParties) (fun w w' => w.db.view.Extends w'.db.view) p w

/-- The operations that insert no webhook. -/
def InsertsNone (op : ServiceOp) : Prop := ∀ webhook, op ≠ .sql (.insertWebhook webhook)

theorem keepsParties_of_only {p : Prog Service ε α} (hp : p.Only InsertsNone) (w : World E) :
    KeepsParties p w := by
  refine Safe.of_only (fun op w r w' hop hw h => ?_) hp w
  exact ⟨webhooksOfParties_of_handler h hw fun webhook heq => absurd heq (hop webhook),
    handler_extends h⟩

/-- The insertion of a webhook for a party. -/
theorem keepsParties_insertFor {webhook : WebhookRow} {w : World E}
    (hparty : w.db.HasParty webhook.escrowId webhook.ownerAddress) (hurl : IsHttp webhook.url) :
    KeepsParties (insertFor webhook) w := by
  intro w₁ r w₂ hext hw₁ hop
  refine ⟨webhooksOfParties_of_handler hop hw₁ ?_, handler_extends hop, ?_⟩
  · rintro _ heq
    obtain rfl := Query.insertWebhook.inj (ServiceOp.sql.inj heq)
    -- the others have left the parties that the check has seen
    exact ⟨hparty.of_extends hext, hurl⟩
  · rcases r with e | webhook
    · trivial
    · trivial

/-- Every request keeps the webhooks with parties. -/
theorem keepsParties_serve (address : String) (req : WebhookRequest) (w : World E) :
    KeepsParties (req.serve address) w := by
  cases req with
  | register escrowId req drawn =>
    rw [serve_register]
    split_ifs with hurl
    · intro w₁ r w₂ _ hw₁ hop
      refine ⟨webhooksOfParties_of_handler hop hw₁ fun _ heq => ?_, handler_extends hop, ?_⟩
      · cases ServiceOp.sql.inj heq
      · rcases r with e | _ | escrow
        · trivial
        · trivial
        change KeepsParties (if _ then _ else _) w₂
        split_ifs with hparty
        · -- the check has seen a party, and whatever is served before the insertion leaves it one
          obtain ⟨now, hexec⟩ := hop.1.ok_inv
          have hrow := (Prod.mk.inj (Except.ok.inj hexec)).1
          have hseen : w₁.db.HasParty escrowId address := ⟨escrow, hrow, hparty⟩
          exact keepsParties_insertFor (hseen.of_extends (handler_extends hop)) hurl
        · trivial
    · trivial
  | list escrowId =>
    have honly : ((WebhookRequest.list escrowId).serve address).Only InsertsNone := by
      rw [serve_list]
      refine ⟨fun _ heq => ?_, fun r => ?_⟩
      · cases ServiceOp.sql.inj heq
      · rcases r with e | webhooks <;> trivial
    exact keepsParties_of_only honly w
  | delete escrowId webhookId =>
    have honly : ((WebhookRequest.delete escrowId webhookId).serve address).Only InsertsNone := by
      rw [serve_delete]
      refine ⟨fun _ heq => ?_, fun r => ?_⟩
      · cases ServiceOp.sql.inj heq
      · rcases r with e | _ | _ <;> trivial
    exact keepsParties_of_only honly w

/-- The indexer inserts no webhook. -/
theorem insertsNone_of_processes {op : ServiceOp} (h : Processes op) : InsertsNone op := by
  rintro webhook rfl
  rcases h with _ | h
  cases h

/-- Every task keeps the webhooks with parties. -/
theorem keepsParties_task (task : Task) (w : World E) : KeepsParties (task.serve crates) w := by
  cases task with
  | webhook address req =>
    exact (keepsParties_serve address req w).attempt.bind fun _ _ => trivial
  | index events =>
    have honly := (runPage_only crates events 0).mono fun _ => insertsNone_of_processes
    exact (keepsParties_of_only honly w).attempt.bind fun _ _ => trivial

/-- **Every webhook belongs to a party.** In every state that requests of any addresses and the
processing of any events reach side by side, every webhook is for an existing escrow that its
owner is the client, the provider or the arbitrator of, and its url is an http(s) one. -/
theorem webhooks_belong_to_parties {rpc : E.Rpc} {hist : Service.History}
    {ts : List (Task × Prog Service Empty TaskResult)} {w : World E}
    (h : Serves E.handler (Task.serve crates) ⟨Db.migrated, rpc⟩ hist ts w) :
    w.db.WebhooksOfParties := by
  have hstart : Db.migrated.WebhooksOfParties := fun _ hmem => by cases hmem
  exact (h.safe (fun w => .refl w.db.view) (fun _ _ _ hw hw' => hw.trans hw')
    keepsParties_task hstart).1

end Safety

/-! ### A sample registration -/

/-- A webhook under a new id is inserted where its escrow exists. -/
theorem Db.exists_insertWebhook {db : Db} {webhook : WebhookRow}
    (hurl : storable webhook.url = true) (hnew : db.webhooks.find? webhook.id = none)
    (hescrow : (db.getEscrow webhook.escrowId).isSome = true) :
    ∃ db', db.insertWebhook webhook = .ok db' := by
  have hbound : ¬ (!storable webhook.url) = true := by simp [hurl]
  have hold : ¬ (db.webhooks.find? webhook.id).isSome = true := by simp [hnew]
  exact ⟨_, (if_neg hbound).trans ((if_neg hold).trans (dif_pos hescrow))⟩

/-- A party can register an http(s) url under a new id. -/
theorem runs_register {E : Env} {w : World E} {e : Int64} {address : String} {escrow : EscrowRow}
    (req : RegisterWebhookRequest) (drawn : Drawn) (hrow : w.db.getEscrow e = some escrow)
    (hparty : escrow.IsParty address) (hurl : IsHttp req.url)
    (hbound : storable req.url = true) (hnew : w.db.webhooks.find? drawn.id = none) :
    ∃ db', Runs E.handler ((WebhookRequest.register e req drawn).serve address) w
        [⟨.sql (.getEscrow e), .ok (some escrow)⟩, ⟨.sql (.insertWebhook
          (drawn.row e address req.url)), .ok (drawn.row e address req.url)⟩]
        (.done (.created (.ofRow (drawn.row e address req.url)))) ⟨db', w.rpc⟩ ∧
      db'.webhooks.rows = w.db.webhooks.rows ++ [drawn.row e address req.url] ∧
      db'.escrows = w.db.escrows := by
  have hescrow : (w.db.getEscrow (drawn.row e address req.url).escrowId).isSome = true :=
    Option.isSome_iff_exists.mpr ⟨escrow, hrow⟩
  obtain ⟨db', hins⟩ := Db.exists_insertWebhook hbound hnew hescrow
  have hread : (Query.getEscrow e).exec 0 w.db = .ok (some escrow, w.db) :=
    congrArg (fun o => Except.ok (o, w.db)) hrow
  have hinsert : (Query.insertWebhook (drawn.row e address req.url)).exec 0 w.db =
      .ok (drawn.row e address req.url, db') := by
    rw [Query.exec, hins]
    rfl
  have hop : E.handler (.sql (.getEscrow e)) w (.ok (some escrow)) w := ⟨.ok hread, rfl⟩
  have hop' : E.handler (.sql (.insertWebhook (drawn.row e address req.url))) w
      (.ok (drawn.row e address req.url)) ⟨db', w.rpc⟩ := ⟨.ok hinsert, rfl⟩
  refine ⟨db', ?_, Db.insertWebhook_inv hins⟩
  rw [serve_register, if_pos hurl]
  refine .step hop ?_
  change Runs _ (if _ then _ else _) _ _ _ _
  rw [if_pos hparty]
  exact .step hop' (.refl _ _)

/-- The processing of one event that ends without an error, as a task. -/
theorem runs_index {E : Env} {crates : Crates} (r : EventRun E crates)
    (hsucc : r.event.inSuccessfulContractCall = true) (hdone : r.rest = .done ()) :
    Runs E.handler ((Task.index [r.event]).serve crates) r.before r.trace
      (.done (.indexed (.ok 1))) r.after := by
  have hruns := r.runs
  rw [hdone] at hruns
  have hpage : runPage crates [r.event] 0 =
      ((runEvent crates r.event).attempt : ServiceM (Except Error Unit)).bind fun _ => .done 1 := by
    rw [runPage, hsucc]
    rfl
  rw [Task.serve, hpage]
  exact (hruns.attempt.bind).attempt.bind

/-- A client registers a webhook for the escrow of the sample's creation. -/
theorem webhooks_belong_to_parties_sample :
    ∃ w : World openEnv, w.db.webhooks.rows ≠ [] ∧ w.db.WebhooksOfParties := by
  obtain ⟨r, hev, hbefore, hdone, hview⟩ := exists_createdRun sampleContract 1 ⟨Db.migrated, ()⟩
  have hindex := runs_index r (hev ▸ rfl) hdone
  rw [hbefore] at hindex
  obtain ⟨escrow, hrow, hclient⟩ :
      r.after.db.HasParty 1 (sampleEscrow sampleContract 1).client := by
    have hrow : r.after.db.view.escrow 1 = some ((sampleEscrow sampleContract 1).row 0) := by
      rw [hview]
      rfl
    obtain ⟨escrow, hescrow, heq⟩ := Option.map_eq_some_iff.mp hrow
    have hclient := congrArg EscrowRow.client heq
    exact ⟨escrow, hescrow, Or.inl hclient.symm⟩
  have hnew : r.after.db.webhooks.find? (0 : Uuid) = none := by
    rw [webhooks_of_runs (runEvent_only sampleCrates r.event) r.runs, hbefore]
    rfl
  obtain ⟨db, hreg, hrows, -⟩ := runs_register (E := openEnv) ⟨"https://example.com/hook"⟩
    ⟨0, .replicate 32 7, 0⟩ hrow hclient (by decide) (by decide) hnew
  have hstart : Serves openEnv.handler (Task.serve sampleCrates) ⟨Db.migrated, ()⟩ [] []
      ⟨Db.migrated, ()⟩ := .start
  have hserves := (hstart.run (x := .index [r.event]) hindex).run
    (x := .webhook (sampleEscrow sampleContract 1).client (.register 1 ⟨"https://example.com/hook"⟩
      ⟨0, .replicate 32 7, 0⟩)) hreg.attempt.bind
  refine ⟨⟨db, ()⟩, ?_, webhooks_belong_to_parties hserves⟩
  rw [hrows]
  exact List.append_ne_nil_of_right_ne_nil _ (List.cons_ne_nil _ _)

end ConcordBackend

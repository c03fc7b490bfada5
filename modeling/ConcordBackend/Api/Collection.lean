import ConcordBackend.Api.Owners
import ConcordBackend.Library.Collection

/-!
# The webhooks of an owner on an escrow

To its users the table `webhooks` is many collections, one for each escrow and owner:
`POST` puts a webhook into the collection of its path and caller, `GET` lists that collection.
`DELETE` is not as tidy. Its statement names the id and the caller and not the escrow of the
path, so it takes a webhook of the caller out of whichever of her collections it is in
(`removed_under_another_escrow`). With that said, what an owner is listed is what her answered
requests say, however the requests of all owners and the indexer run side by side
(`webhooks_are_collections`).

Each request takes its effect with one statement, and is answered after that statement
(`takesEffect_serve`), so the order of the answers is the order of the effects.
-/

namespace ConcordBackend

/-! ### Collections -/

section Collections

variable (a : String) (e : Int64) (escrows : Set Int64)

/-- The answer to a registration of the address on the escrow, with the webhook it created. -/
def Registers (t : Task × TaskResult) (webhook : WebhookRow) : Prop :=
  ∃ req drawn, t = (.webhook a (.register e req drawn), .answered (.ok (.created (.ofRow webhook))))

/-- The answer to a successful deletion by the address that named the webhook under one of the
escrows. -/
def Removes (t : Task × TaskResult) (webhook : WebhookRow) : Prop :=
  ∃ e' ∈ escrows, t = (.webhook a (.delete e' webhook.id), .answered (.ok .deleted))

/-- A row of `webhooks` of the address on the escrow. -/
def Db.WebhookOn (db : Db) (webhook : WebhookRow) : Prop :=
  webhook ∈ db.webhooks.rows ∧ webhook.ownerAddress = a ∧ webhook.escrowId = e

/-- By the log of the answers, the address has registered the webhook on the escrow, and has not
deleted it since under one of `escrows`. -/
def Has (log : List (Task × TaskResult)) (webhook : WebhookRow) : Prop :=
  Holds (Registers a e) (Removes a escrows) log webhook

end Collections

/-- `From<WebhookRow>` forgets nothing. -/
theorem WebhookCreated.ofRow_inj {w w' : WebhookRow} (h : ofRow w = ofRow w') : w = w' := by
  obtain ⟨id, escrowId, ownerAddress, url, createdAt, secret⟩ := w
  obtain ⟨id', escrowId', ownerAddress', url', createdAt', secret'⟩ := w'
  simpa [ofRow] using h

/-! ### Answers -/

/-- The answer of a registration, by the reply to its insertion. -/
def insertAnswer : Except SqlError WebhookRow → TaskResult
  | .ok webhook => .answered (.ok (.created (.ofRow webhook)))
  | .error err => .answered (.error (.database err))

/-- The answer of a list, by the reply to its statement. -/
def listAnswer (a : String) : Except SqlError (List WebhookRow) → TaskResult
  | .ok webhooks => .answered (.ok (.listed (webhooks.filter fun w => w.ownerAddress = a)))
  | .error err => .answered (.error (.database err))

/-- The answer of a deletion, by the reply to its statement. -/
def deleteAnswer : Except SqlError Bool → TaskResult
  | .ok true => .answered (.ok .deleted)
  | .ok false => .answered (.error .notFound)
  | .error err => .answered (.error (.database err))

section Requests

variable (crates : Crates) (a : String) (e : Int64)

theorem insertFor_task (webhook : WebhookRow) :
    ((insertFor webhook).attempt.bind fun answer => .done (.answered answer) :
      Prog Service Empty TaskResult) =
      .call (.sql (.insertWebhook webhook)) fun r => .done (insertAnswer r) := by
  change Prog.call _ _ = Prog.call _ _
  congr 1
  funext r
  rcases r with err | webhook <;> rfl

theorem list_task : (Task.webhook a (.list e)).serve crates =
    .call (.sql (.listWebhooksForEscrow e)) fun r => .done (listAnswer a r) := by
  rw [Task.serve, serve_list]
  change Prog.call _ _ = Prog.call _ _
  congr 1
  funext r
  rcases r with err | webhooks <;> rfl

theorem delete_task (id : Uuid) : (Task.webhook a (.delete e id)).serve crates =
    .call (.sql (.deleteWebhook id a)) fun r => .done (deleteAnswer r) := by
  rw [Task.serve, serve_delete]
  change Prog.call _ _ = Prog.call _ _
  congr 1
  funext r
  rcases r with err | _ | _ <;> rfl

end Requests

/-! ### Entries -/

section Entries

variable {a a' : String} {e e' : Int64} {task : Task} {webhook row : WebhookRow}

theorem registers_iff {req : RegisterWebhookRequest} {drawn : Drawn} :
    Registers a e (.webhook a' (.register e' req drawn), .answered (.ok (.created (.ofRow row))))
      webhook ↔ webhook = row ∧ a' = a ∧ e' = e := by
  constructor
  · rintro ⟨req', drawn', heq⟩
    simp only [Prod.mk.injEq, Task.webhook.injEq, WebhookRequest.register.injEq,
      TaskResult.answered.injEq, Except.ok.injEq, WebhookResponse.created.injEq] at heq
    exact ⟨(WebhookCreated.ofRow_inj heq.2).symm, heq.1.1, heq.1.2.1⟩
  · rintro ⟨rfl, rfl, rfl⟩
    exact ⟨req, drawn, rfl⟩

theorem removes_iff {id : Uuid} :
    Removes a Set.univ (.webhook a' (.delete e' id), .answered (.ok .deleted)) webhook ↔
      webhook.id = id ∧ a' = a := by
  constructor
  · rintro ⟨e₁, -, heq⟩
    simp only [Prod.mk.injEq, Task.webhook.injEq, WebhookRequest.delete.injEq] at heq
    exact ⟨heq.1.2.2.symm, heq.1.1⟩
  · rintro ⟨rfl, rfl⟩
    exact ⟨e', Set.mem_univ _, rfl⟩

/-- Only the answer of a registration puts a webhook in. -/
theorem not_registers {x : TaskResult} (hx : ∀ w, x ≠ .answered (.ok (.created w))) :
    ¬ Registers a e (task, x) webhook := by
  rintro ⟨req, drawn, heq⟩
  exact hx _ (Prod.mk.inj heq).2

/-- Only the answer of a deletion takes a webhook out. -/
theorem not_removes {escrows : Set Int64} {x : TaskResult} (hx : x ≠ .answered (.ok .deleted)) :
    ¬ Removes a escrows (task, x) webhook := by
  rintro ⟨e', -, heq⟩
  exact hx (Prod.mk.inj heq).2

theorem Db.webhookOn_congr {db db' : Db} (h : db'.webhooks = db.webhooks) :
    db'.WebhookOn a e webhook ↔ db.WebhookOn a e webhook := by
  rw [Db.WebhookOn, Db.WebhookOn, h]

/-- An insertion adds its row where it belongs. -/
theorem Db.webhookOn_insertWebhook {db db' : Db} (h : db.insertWebhook row = .ok db') :
    db'.WebhookOn a e webhook ↔
      (webhook = row ∧ row.ownerAddress = a ∧ row.escrowId = e) ∨ db.WebhookOn a e webhook := by
  rw [Db.WebhookOn, (Db.insertWebhook_inv h).1, List.mem_append, List.mem_singleton]
  constructor
  · rintro ⟨hmem | rfl, ha, he⟩
    · exact Or.inr ⟨hmem, ha, he⟩
    · exact Or.inl ⟨rfl, ha, he⟩
  · rintro (⟨rfl, ha, he⟩ | ⟨hmem, ha, he⟩)
    · exact ⟨Or.inr rfl, ha, he⟩
    · exact ⟨Or.inl hmem, ha, he⟩

/-- A deletion takes the webhook of its id out of the collections of the caller, whatever escrow
it is on. -/
theorem Db.webhookOn_deleteWebhook {db : Db} {id : Uuid} :
    (db.deleteWebhook id a').2.WebhookOn a e webhook ↔
      db.WebhookOn a e webhook ∧ ¬ (webhook.id = id ∧ a' = a) := by
  change webhook ∈ db.webhooks.rows.filter _ ∧ _ ↔ _
  rw [List.mem_filter, Db.WebhookOn]
  constructor
  · rintro ⟨⟨hmem, hkept⟩, ha, he⟩
    refine ⟨⟨hmem, ha, he⟩, ?_⟩
    rintro ⟨rfl, rfl⟩
    simp [ha] at hkept
  · rintro ⟨⟨hmem, rfl, he⟩, hkept⟩
    refine ⟨⟨hmem, ?_⟩, rfl, he⟩
    by_cases hid : webhook.id = id
    · have hcaller : webhook.ownerAddress ≠ a' := fun heq => hkept ⟨hid, heq.symm⟩
      simp [hcaller]
    · simp [hid]

end Entries

/-! ### Effects -/

section Effects

variable {E : Env} {crates : Crates} {w w' : World E} {a : String} {e : Int64}

/-- The order of a list is all that an operation may do differently. -/
theorem exists_handler_of_unordered {op : ServiceOp} {r : op.Reply} (h : E.unordered op w r w') :
    ∃ r₀ : op.Reply, E.handler op w r₀ w' := by
  cases op with
  | sql q =>
    cases q with
    | listWebhooksForEscrow e =>
      obtain ⟨r₀, h₀, -⟩ := h
      exact ⟨r₀, h₀⟩
    | _ => exact ⟨r, h⟩
  | _ => exact ⟨r, h⟩

/-- The operation and its reply change the collection as the request's answer says. -/
abbrev Effect (E : Env) (a : String) (e : Int64) (task : Task) (op : ServiceOp)
    (k : op.Reply → Prog Service Empty TaskResult) : Prop :=
  TakesEffect E.unordered (Registers a e) (Removes a Set.univ)
    (fun w webhook => w.db.WebhookOn a e webhook) task op k

/-- An operation that does not write webhooks, and after which no registration or deletion is
answered. -/
theorem effect_of_frame {task : Task} {op : ServiceOp}
    {k : op.Reply → Prog Service Empty TaskResult} (hop : ¬ WritesWebhooks op)
    (hnone : ∀ r x, (k r).result? = some x → ∀ webhook,
      ¬ Registers a e (task, x) webhook ∧ ¬ Removes a Set.univ (task, x) webhook) :
    Effect E a e task op k := by
  refine .of_frame (fun w r w' h webhook => ?_) hnone
  obtain ⟨r₀, h₀⟩ := exists_handler_of_unordered h
  exact Db.webhookOn_congr (webhooks_of_handler h₀ hop)

/-- An error leaves the webhooks alone. -/
theorem webhookOn_of_error {task : Task} {err : AppError} {db db' : Db} {webhook : WebhookRow}
    (h : db'.webhooks = db.webhooks) :
    db'.WebhookOn a e webhook ↔ Registers a e (task, .answered (.error err)) webhook ∨
      db.WebhookOn a e webhook ∧ ¬ Removes a Set.univ (task, .answered (.error err)) webhook := by
  have hput : ¬ Registers a e (task, .answered (.error err)) webhook :=
    not_registers fun _ heq => by cases heq
  have hkept : ¬ Removes a Set.univ (task, .answered (.error err)) webhook :=
    not_removes fun heq => by cases heq
  rw [Db.webhookOn_congr h, or_iff_right hput, and_iff_left hkept]

/-- The insertion of a registration. -/
theorem effect_insert (a' : String) (e' : Int64) (req : RegisterWebhookRequest) (drawn : Drawn) :
    Effect E a e (.webhook a' (.register e' req drawn))
      (.sql (.insertWebhook (drawn.row e' a' req.url))) fun r => .done (insertAnswer r) := by
  refine .of_done insertAnswer (fun _ => rfl) fun w r w' hop webhook => ?_
  rcases r with err | reply
  · exact webhookOn_of_error (congrArg Db.webhooks hop.1.error_inv.1)
  · obtain ⟨rfl, hins⟩ := insertWebhook_of_ok hop.1
    refine (Db.webhookOn_insertWebhook hins).trans (or_congr registers_iff.symm ?_)
    exact (and_iff_left (not_removes fun heq => by cases heq)).symm

/-- The deletion of a request. -/
theorem effect_delete (a' : String) (e' : Int64) (id : Uuid) :
    Effect E a e (.webhook a' (.delete e' id)) (.sql (.deleteWebhook id a'))
      fun r => .done (deleteAnswer r) := by
  refine .of_done deleteAnswer (fun _ => rfl) fun w r w' hop webhook => ?_
  rcases r with err | deleted
  · exact webhookOn_of_error (congrArg Db.webhooks hop.1.error_inv.1)
  obtain ⟨now, hexec⟩ := hop.1.ok_inv
  have hdeleted : (w.db.deleteWebhook id a').1 = deleted := congrArg Prod.fst (Except.ok.inj hexec)
  have hdb : (w.db.deleteWebhook id a').2 = w'.db := congrArg Prod.snd (Except.ok.inj hexec)
  rcases deleted with _ | _
  · -- no row has been deleted
    refine webhookOn_of_error (congrArg Db.webhooks (hdb.symm.trans ?_))
    refine congrArg Prod.snd (deleteWebhook_of_notOwn fun x hx hid howner => ?_)
    exact absurd (List.any_eq_false.mp hdeleted x hx) (by simp [hid, howner])
  · have hput : ¬ Registers a e (.webhook a' (.delete e' id), .answered (.ok .deleted)) webhook :=
      not_registers fun _ heq => by cases heq
    have hkept : w'.db.WebhookOn a e webhook ↔ _ := hdb ▸ Db.webhookOn_deleteWebhook
    exact hkept.trans ((and_congr_right' (not_congr removes_iff.symm)).trans
      (or_iff_right hput).symm)

/-- A registration: the lookup of the escrow, the check of the parties, the insertion. -/
private theorem takesEffect_register (a' : String) (e' : Int64) (req : RegisterWebhookRequest)
    (drawn : Drawn) : (Task.serve crates (.webhook a' (.register e' req drawn))).Each
      (Effect E a e (.webhook a' (.register e' req drawn))) := by
  rw [Task.serve, serve_register]
  split_ifs with hurl
  · refine ⟨effect_of_frame (by rintro ⟨⟩) fun r x hx webhook => ⟨?_, ?_⟩, fun r => ?_⟩
    · -- the check of the parties answers nothing but errors
      refine not_registers fun w hw => ?_
      rw [hw] at hx
      rcases r with err | _ | escrow
      · cases hx
      · cases hx
      · change ((if _ then _ else _ : ApiM WebhookResponse).attempt.bind _).result? = _ at hx
        split_ifs at hx with hparty
        · cases hx
        · cases hx
    · rintro ⟨e₁, -, heq⟩
      cases heq
    rcases r with err | _ | escrow
    · trivial
    · trivial
    change ((if _ then _ else _ : ApiM WebhookResponse).attempt.bind _).Each _
    split_ifs with hparty
    · rw [insertFor_task]
      exact ⟨effect_insert a' e' req drawn, fun _ => trivial⟩
    · trivial
  · trivial

/-- A list answers neither a registration nor a deletion. -/
private theorem takesEffect_list (a' : String) (e' : Int64) :
    (Task.serve crates (.webhook a' (.list e'))).Each (Effect E a e (.webhook a' (.list e'))) := by
  rw [list_task]
  refine ⟨effect_of_frame (by rintro ⟨⟩) fun r x _ webhook => ⟨?_, ?_⟩, fun _ => trivial⟩
  · rintro ⟨req, drawn, heq⟩
    cases heq
  · rintro ⟨e₁, -, heq⟩
    cases heq

/-- The processing of events sends no statement that writes webhooks. -/
private theorem takesEffect_index (events : List RpcEvent) :
    (Task.serve crates (.index events)).Each (Effect E a e (.index events)) := by
  have honly := (runPage_only crates events 0).attempt.bind (f := fun processed =>
    (.done (.indexed processed) : Prog Service Empty TaskResult)) fun _ => trivial
  refine honly.each fun op k hop => effect_of_frame ?_ fun r x _ webhook => ⟨?_, ?_⟩
  · rintro (webhook | ⟨id, owner⟩)
    · exact insertsNone_of_processes hop webhook rfl
    · rcases hop with _ | h
      cases h
  · rintro ⟨req, drawn, heq⟩
    cases heq
  · rintro ⟨e₁, -, heq⟩
    cases heq

/-- Every task changes the collections as it is answered. -/
theorem takesEffect_serve (task : Task) : (task.serve crates).Each (Effect E a e task) := by
  cases task with
  | webhook a' req =>
    cases req with
    | register e' req drawn => exact takesEffect_register a' e' req drawn
    | list e' => exact takesEffect_list a' e'
    | delete e' id =>
      rw [delete_task]
      exact ⟨effect_delete a' e' id, fun _ => trivial⟩
  | index events => exact takesEffect_index events

/-- **The table is what the answers say.** -/
theorem webhookOn_iff_has {w₀ : World E} {hist : Service.History}
    {ts : List (Task × Prog Service Empty TaskResult)} (hempty : w₀.db.webhooks.rows = [])
    (h : Serves E.unordered (Task.serve crates) w₀ hist ts w) (webhook : WebhookRow) :
    w.db.WebhookOn a e webhook ↔ Has a e Set.univ (hist.answered ts) webhook := by
  refine h.stored_iff_holds (fun task => takesEffect_serve task) (fun y hy => ?_) webhook
  have hmem : y ∈ w₀.db.webhooks.rows := hy.1
  rw [hempty] at hmem
  cases hmem

end Effects

/-! ### The endpoints -/

section Endpoints

variable {E : Env} {crates : Crates} {w₀ w w' : World E} {hist : Service.History}
  {ts : List (Task × Prog Service Empty TaskResult)}

/-- What a list answers, whatever the order of its rows. -/
theorem listed_of_unordered {a : String} {e : Int64} {r : Except SqlError (List WebhookRow)}
    (h : E.unordered (.sql (.listWebhooksForEscrow e)) w r w')
    (hcalm : failedBy ⟨.sql (.listWebhooksForEscrow e), r⟩ = false) :
    ∃ webhooks : List WebhookRow, listAnswer a r = .answered (.ok (.listed webhooks)) ∧
      webhooks.Nodup ∧ ∀ webhook, webhook ∈ webhooks ↔ w.db.WebhookOn a e webhook := by
  obtain ⟨r₀, h₀, hr⟩ := h
  rcases r₀ with err | rows
  · obtain ⟨-, ⟨now, hexec⟩ | ⟨-, rfl⟩⟩ := h₀.1.error_inv
    · cases hexec
    · rw [hr] at hcalm
      cases hcalm
  obtain ⟨rows', rfl, hperm⟩ := hr
  obtain ⟨now, hexec⟩ := h₀.1.ok_inv
  obtain rfl : w.db.listWebhooksForEscrow e = rows := congrArg Prod.fst (Except.ok.inj hexec)
  have hnodup : w.db.webhooks.rows.Nodup := .of_map _ w.db.webhooks.nodup
  refine ⟨_, rfl, (hperm.nodup_iff.mpr (hnodup.filter _)).filter _, fun webhook => ?_⟩
  rw [List.mem_filter, hperm.mem_iff, Db.listWebhooksForEscrow, List.mem_filter, Db.WebhookOn]
  simp only [decide_eq_true_eq, and_assoc]
  exact and_congr_right' and_comm

/-- **The webhook endpoints implement a collection for each escrow and owner.** However requests
of any addresses on any paths and the indexer run side by side, an address is listed, without
repetition, what she has registered on the escrow of the path and not deleted since, under
whatever path. A deletion of an id that is not one of her webhooks, on any escrow, is answered
with not found and changes nothing. -/
theorem webhooks_are_collections (hempty : w₀.db.webhooks.rows = [])
    (h : Serves E.unordered (Task.serve crates) w₀ hist ts w) {i : ℕ} {a : String}
    {req : WebhookRequest} {op : ServiceOp} {k : op.Reply → Prog Service Empty TaskResult}
    {r : op.Reply} (hi : ts[i]? = some (.webhook a req, .call op k))
    (hop : E.unordered op w r w') :
    (∀ e, req = .list e → failedBy ⟨op, r⟩ = false →
      ∃ webhooks : List WebhookRow, k r = .done (.answered (.ok (.listed webhooks))) ∧
        webhooks.Nodup ∧
        ∀ webhook, webhook ∈ webhooks ↔ Has a e Set.univ (hist.answered ts) webhook) ∧
    ∀ e id, req = .delete e id →
      (∀ e' webhook, Has a e' Set.univ (hist.answered ts) webhook → webhook.id ≠ id) →
      w' = w ∧ (failedBy ⟨op, r⟩ = false → k r = .done (.answered (.error .notFound))) := by
  have hleads := h.leads hi
  refine ⟨?_, ?_⟩
  · rintro e rfl hcalm
    rw [list_task] at hleads
    cases hleads.eq_of_single
    obtain ⟨webhooks, hanswer, hnodup, hmem⟩ := listed_of_unordered (a := a) hop hcalm
    refine ⟨webhooks, congrArg Prog.done hanswer, hnodup, fun webhook => ?_⟩
    rw [hmem, webhookOn_iff_has hempty h]
  · rintro e id rfl hnone
    rw [delete_task] at hleads
    cases hleads.eq_of_single
    have hown : ∀ x ∈ w.db.webhooks.rows, x.id = id → x.ownerAddress ≠ a := by
      intro x hx hid howner
      exact hnone x.escrowId x ((webhookOn_iff_has hempty h x).mp ⟨hx, howner, rfl⟩) hid
    obtain ⟨hdb, rfl | rfl⟩ := sqlStep_delete_of_notOwn hop.1 hown
    · exact ⟨World.eq_of hdb hop.2, fun _ => rfl⟩
    · exact ⟨World.eq_of hdb hop.2, fun hcalm => by cases hcalm⟩

end Endpoints

/-! ### A deletion under another escrow -/

section Sample

/-- Two escrows of the sample's client. -/
def twoEscrows : Db := ownedDb.upsertEscrow 0 { sampleEscrow sampleContract 1 with id := 2 }

/-- The sample's client. -/
def sampleClient : String := (sampleEscrow sampleContract 1).client

/-- A registration of the client on the first escrow. -/
def sampleRegistration : Task :=
  .webhook sampleClient (.register 1 ⟨"https://example.com/hook"⟩ ⟨0, .replicate 32 7, 0⟩)

/-- The webhook it creates. -/
def sampleHook : WebhookRow :=
  Drawn.row ⟨0, .replicate 32 7, 0⟩ 1 sampleClient "https://example.com/hook"

/-- A webhook of the caller can be deleted under any path. -/
theorem runs_delete {E : Env} {crates : Crates} (w : World E) (e : Int64) {id : Uuid} {a : String}
    (h : (w.db.deleteWebhook id a).1 = true) :
    Runs E.unordered ((Task.webhook a (.delete e id)).serve crates) w
      [⟨.sql (.deleteWebhook id a), .ok true⟩] (.done (.answered (.ok .deleted)))
      ⟨(w.db.deleteWebhook id a).2, w.rpc⟩ := by
  have hexec : (Query.deleteWebhook id a).exec 0 w.db = .ok (true, (w.db.deleteWebhook id a).2) :=
    congrArg Except.ok (Prod.ext h rfl)
  have hop : E.unordered (.sql (.deleteWebhook id a)) w (.ok true)
      ⟨(w.db.deleteWebhook id a).2, w.rpc⟩ := ⟨.ok hexec, rfl⟩
  rw [delete_task]
  exact .step hop (.refl _ _)

/-- The server once the registration is answered. -/
theorem exists_registered : ∃ (hist : Service.History)
    (ts : List (Task × Prog Service Empty TaskResult)) (db : Db),
    Serves openEnv.unordered (Task.serve sampleCrates) ⟨twoEscrows, ()⟩ hist ts ⟨db, ()⟩ ∧
      hist.answered ts =
        [(sampleRegistration, .answered (.ok (.created (.ofRow sampleHook))))] ∧
      db.webhooks.rows = [sampleHook] := by
  have hescrow : twoEscrows.getEscrow 1 = some ((sampleEscrow sampleContract 1).row 0) := by rfl
  obtain ⟨db, hreg, hrows, -⟩ := runs_register (E := openEnv) (w := ⟨twoEscrows, ()⟩)
    ⟨"https://example.com/hook"⟩ ⟨0, .replicate 32 7, 0⟩ hescrow (Or.inl rfl) (by decide) (by decide)
    (by rfl)
  have hstart : Serves openEnv.unordered (Task.serve sampleCrates) ⟨twoEscrows, ()⟩ [] []
      ⟨twoEscrows, ()⟩ := .start
  exact ⟨_, _, db, hstart.run (x := sampleRegistration)
    (hreg.mono fun _ _ _ _ => unordered_of_handler).attempt.bind,
    hstart.answered_run _ _ (List.cons_ne_nil _ _), hrows⟩

/-- The client is then listed the webhook. -/
theorem webhooks_are_collections_sample :
    ∃ (hist : Service.History) (ts : List (Task × Prog Service Empty TaskResult))
      (w : World openEnv) (webhooks : List WebhookRow),
      Serves openEnv.unordered (Task.serve sampleCrates) ⟨twoEscrows, ()⟩ hist ts w ∧
      sampleHook ∈ webhooks ∧
      ∀ webhook, webhook ∈ webhooks ↔ Has sampleClient 1 Set.univ (hist.answered ts) webhook := by
  obtain ⟨hist, ts, db, h, hlog, -⟩ := exists_registered
  have hread : (Query.listWebhooksForEscrow 1).exec 0 db =
      .ok (db.listWebhooksForEscrow 1, db) := rfl
  have hop : openEnv.handler (.sql (.listWebhooksForEscrow 1)) ⟨db, ()⟩
      (.ok (db.listWebhooksForEscrow 1)) ⟨db, ()⟩ := ⟨.ok hread, rfl⟩
  have harrived := h.arrive (.webhook sampleClient (.list 1))
  rw [list_task] at harrived
  obtain ⟨webhooks, -, -, hmem⟩ := (webhooks_are_collections rfl harrived
    List.getElem?_concat_length (unordered_of_handler hop)).1 1 rfl rfl
  refine ⟨_, _, _, webhooks, harrived, (hmem _).mpr ?_, hmem⟩
  rw [h.answered_arrive, hlog]
  exact ⟨[], _, [], rfl, ⟨_, _, rfl⟩, fun _ hc => by cases hc⟩

/-- **An owner loses a webhook under another escrow's path.** She registers it on the first
escrow and nothing on the second. A deletion under the second is answered with success, after
which the first has none, though under its own path none was deleted. -/
theorem removed_under_another_escrow :
    ∃ (hist : Service.History) (ts : List (Task × Prog Service Empty TaskResult))
      (w : World openEnv),
      Serves openEnv.unordered (Task.serve sampleCrates) ⟨twoEscrows, ()⟩ hist ts w ∧
      hist.answered ts =
        [(sampleRegistration, .answered (.ok (.created (.ofRow sampleHook)))),
          (.webhook sampleClient (.delete 2 sampleHook.id), .answered (.ok .deleted)),
          (.webhook sampleClient (.list 1), .answered (.ok (.listed [])))] ∧
      Has sampleClient 1 {1} (hist.answered ts) sampleHook ∧
      ∀ webhook, ¬ Has sampleClient 2 {2} (hist.answered ts) webhook := by
  obtain ⟨hist, ts, db, h, hlog, hrows⟩ := exists_registered
  have hfound : (db.deleteWebhook sampleHook.id sampleClient).1 = true := by
    change List.any _ _ = true
    rw [hrows]
    rfl
  have hnone : (db.deleteWebhook sampleHook.id sampleClient).2.listWebhooksForEscrow 1 = [] := by
    change List.filter _ (List.filter _ _) = []
    rw [hrows]
    rfl
  have hdelete := h.run (x := .webhook sampleClient (.delete 2 sampleHook.id))
    (runs_delete (E := openEnv) ⟨db, ()⟩ 2 hfound)
  have hlist := hdelete.run (x := .webhook sampleClient (.list 1))
    ((runs_list (E := openEnv) _ 1 sampleClient).mono
      fun _ _ _ _ => unordered_of_handler).attempt.bind
  refine ⟨_, _, _, hlist, ?_⟩
  have hanswered := hdelete.answered_run (.webhook sampleClient (.list 1))
    (.answered (.ok (.listed []))) (List.cons_ne_nil
      (⟨.sql (.listWebhooksForEscrow 1), .ok []⟩ : Sigma Service.Reply) [])
  rw [h.answered_run _ _ (List.cons_ne_nil _ _), hlog] at hanswered
  rw [hnone]
  refine ⟨hanswered, ?_, fun webhook hhas => ?_⟩
  · refine hanswered ▸ ⟨[], _, _, rfl, ⟨_, _, rfl⟩, ?_⟩
    rintro t ht ⟨e', rfl, rfl⟩
    simp at ht
  · obtain ⟨t, ht, req, drawn, rfl⟩ := (hanswered ▸ hhas).exists_mem
    simp [sampleRegistration] at ht

end Sample

end ConcordBackend

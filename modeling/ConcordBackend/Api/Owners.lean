import ConcordBackend.Api.Webhooks
import ConcordBackend.Library.Noninterference

/-!
# The webhooks of one owner

The webhooks of all owners share one table, and each endpoint keeps them apart in another
place: the insertion binds the caller's address, the deletion names it in its `WHERE` clause,
and the list filters what an unfiltered `SELECT` has returned. For each owner the table is as
good as one of her own: `OwnRows` is that table with the escrows beside it, `OwnRows.answer`
what a statement answers and does there, and `unwinding` says that her requests do just that
and the requests of the others nothing. So two runs that differ in what the others do are the
same to her (`webhooks_noninterference`).
-/

namespace ConcordBackend

/-! ### Runs of the webhook endpoints -/

/-- A request with the address it is authenticated for. -/
structure UserRequest where
  address : String
  req : WebhookRequest

/-- The handler of a request. -/
def UserRequest.serve (u : UserRequest) : ApiM WebhookResponse := u.req.serve u.address

/-- `E.handler` with the rows of an unordered `SELECT` in any order. -/
def Env.unordered (E : Env) : Handler Service (World E)
  | .sql (.listWebhooksForEscrow e), w, r, w' => ∃ r₀ : Except SqlError (List WebhookRow),
    E.handler (.sql (.listWebhooksForEscrow e)) w r₀ w' ∧
      match r₀ with
      | .ok rows => ∃ rows' : List WebhookRow, r = .ok rows' ∧ rows'.Perm rows
      | .error err => r = .error err
  | op, w, r, w' => E.handler op w r w'

/-- Runs of the webhook endpoints. -/
abbrev WebhookRun (E : Env) : World E → Service.History →
    List (UserRequest × ApiM WebhookResponse) → World E → Prop :=
  Serves E.unordered UserRequest.serve

/-- The connection failed the statement. -/
def failedBy : Sigma Service.Reply → Bool
  | ⟨.sql _, .error .transient⟩ => true
  | _ => false

/-- The id drawn for a new webhook is that of another one. -/
def Collides : Sigma Service.Reply → Prop
  | ⟨.sql (.insertWebhook _), .error .uniqueViolation⟩ => True
  | _ => False

/-! ### A table of one's own -/

/-- The escrows, and the webhooks of one owner. -/
structure OwnRows where
  escrows : Table EscrowRow.id
  webhooks : List WebhookRow

/-- The rows of `webhooks` an owner has. -/
def Db.webhooksOf (db : Db) (owner : String) : List WebhookRow :=
  db.webhooks.rows.filter fun w => w.ownerAddress = owner

/-- What an owner has of a database. -/
def Db.ownRows (db : Db) (owner : String) : OwnRows := ⟨db.escrows, db.webhooksOf owner⟩

/-- What a statement of the endpoints answers and does where there is one owner only. -/
def OwnRows.exec (v : OwnRows) : (q : Query) → Except SqlError q.Reply × OwnRows
  | .getEscrow id => (.ok (v.escrows.find? id), v)
  | .listWebhooksForEscrow e => (.ok (v.webhooks.filter fun w => w.escrowId = e), v)
  | .insertWebhook w =>
    if !storable w.url then (.error .characterNotInRepertoire, v)
    else if (v.escrows.find? w.escrowId).isSome then
      (.ok w, { v with webhooks := v.webhooks ++ [w] })
    else (.error .foreignKey, v)
  | .deleteWebhook id owner =>
    (.ok (v.webhooks.any fun w => w.id = id && w.ownerAddress = owner),
      { v with webhooks := v.webhooks.filter fun w => !(w.id = id && w.ownerAddress = owner) })
  | _ => (.error .transient, v)

/-- The same for an operation, where it is known whether the connection fails it. The endpoints
use no other operations than statements. -/
def OwnRows.answer (failed : Bool) (v : OwnRows) : (op : ServiceOp) → op.Reply × OwnRows
  | .sql q => if failed then (.error .transient, v) else v.exec q
  | .getLatestLedger => (.error (.rpc "getLatestLedger"), v)
  | .getEvents _ => (.error (.rpc "getEvents"), v)
  | .spawnDelivery _ => ((), v)
  | .utcNow => ((0 : DateTime), v)

/-! ### Answers -/

/-- The same answers, lists in any order. -/
inductive Alike : ApiM WebhookResponse → ApiM WebhookResponse → Prop where
  | refl (p : ApiM WebhookResponse) : Alike p p
  | listed {webhooks webhooks' : List WebhookRow} (h : webhooks.Perm webhooks') :
      Alike (.done (.listed webhooks)) (.done (.listed webhooks'))

theorem Alike.symm {p q : ApiM WebhookResponse} (h : Alike p q) : Alike q p := by
  cases h with
  | refl => exact .refl _
  | listed h => exact .listed h.symm

theorem Alike.trans {p q r : ApiM WebhookResponse} (h : Alike p q) (h' : Alike q r) :
    Alike p r := by
  cases h with
  | refl => exact h'
  | listed h =>
    cases h' with
    | refl => exact .listed h
    | listed h' => exact .listed (h.trans h')

/-- Programs that keep to the rows of an owner, and list no others. -/
inductive Confined (owner : String) : ApiM WebhookResponse → Prop where
  | done (resp : WebhookResponse) : Confined owner (.done resp)
  | fail (err : AppError) : Confined owner (.fail err)
  | getEscrow {e : Int64} {k : Except SqlError (Option EscrowRow) → ApiM WebhookResponse}
      (h : ∀ r, Confined owner (k r)) : Confined owner (.call (.sql (.getEscrow e)) k)
  | insert {w : WebhookRow} {k : Except SqlError WebhookRow → ApiM WebhookResponse}
      (hw : w.ownerAddress = owner) (h : ∀ r, Confined owner (k r)) :
      Confined owner (.call (.sql (.insertWebhook w)) k)
  | delete {id : Uuid} {k : Except SqlError Bool → ApiM WebhookResponse}
      (h : ∀ r, Confined owner (k r)) : Confined owner (.call (.sql (.deleteWebhook id owner)) k)
  | list {e : Int64} {k : Except SqlError (List WebhookRow) → ApiM WebhookResponse}
      (hblind : ∀ rows rows' : List WebhookRow,
        (rows.filter fun w => w.ownerAddress = owner).Perm
          (rows'.filter fun w => w.ownerAddress = owner) → Alike (k (.ok rows)) (k (.ok rows')))
      (h : ∀ r, Confined owner (k r)) :
      Confined owner (.call (.sql (.listWebhooksForEscrow e)) k)

/-- The endpoints keep to the rows of the caller. -/
theorem confined_serve (u : UserRequest) : Confined u.address u.serve := by
  obtain ⟨address, req⟩ := u
  cases req with
  | register escrowId req drawn =>
    rw [UserRequest.serve, serve_register]
    split_ifs with hurl
    · refine .getEscrow fun r => ?_
      rcases r with e | _ | escrow
      · exact .fail _
      · exact .fail _
      change Confined _ (if _ then _ else _)
      split_ifs with hparty
      · refine .insert rfl fun r => ?_
        rcases r with e | webhook
        · exact .fail _
        · exact .done _
      · exact .fail _
    · exact .fail _
  | list escrowId =>
    rw [UserRequest.serve, serve_list]
    refine .list (fun rows rows' h => .listed h) fun r => ?_
    rcases r with e | webhooks
    · exact .fail _
    · exact .done _
  | delete escrowId webhookId =>
    rw [UserRequest.serve, serve_delete]
    refine .delete fun r => ?_
    rcases r with e | _ | _
    · exact .fail _
    · exact .fail _
    · exact .done _

/-! ### What a statement does to the rows of an owner -/

section Statements

variable {faulty : Query → Prop} {db db' : Db} {owner : String}

/-- The webhooks of an owner after an insertion. -/
theorem Db.webhooksOf_insertWebhook {webhook : WebhookRow}
    (h : db.insertWebhook webhook = .ok db') : db'.webhooksOf owner =
      db.webhooksOf owner ++ (if webhook.ownerAddress = owner then [webhook] else []) := by
  rw [Db.webhooksOf, (Db.insertWebhook_inv h).1, List.filter_append, List.filter_singleton]
  by_cases howner : webhook.ownerAddress = owner
  · simp [howner, Db.webhooksOf]
  · simp [howner, Db.webhooksOf]

/-- The webhooks of an owner after a deletion. -/
theorem Db.webhooksOf_deleteWebhook (db : Db) (id : Uuid) (caller owner : String) :
    (db.deleteWebhook id caller).2.webhooksOf owner =
      (db.webhooksOf owner).filter fun w => !(w.id = id && w.ownerAddress = caller) := by
  rw [Db.webhooksOf, Db.webhooksOf, List.filter_filter]
  change List.filter _ (List.filter _ _) = _
  rw [List.filter_filter]
  refine List.filter_congr fun w _ => ?_
  rw [Bool.and_comm]

/-- An insertion is rejected for its url, for its id or for its escrow. -/
theorem Db.insertWebhook_error {webhook : WebhookRow} {e : SqlError}
    (h : db.insertWebhook webhook = .error e) :
    (e = .characterNotInRepertoire ∧ storable webhook.url = false) ∨ e = .uniqueViolation ∨
      e = .foreignKey ∧ storable webhook.url = true ∧
        ¬ (db.escrows.find? webhook.escrowId).isSome = true := by
  unfold Db.insertWebhook at h
  split_ifs at h with hurl hold hescrow
  · exact Or.inl ⟨(Except.error.inj h).symm, by simpa using hurl⟩
  · exact Or.inr (Or.inl (Except.error.inj h).symm)
  · exact Or.inr (Or.inr ⟨(Except.error.inj h).symm, by simpa using hurl, hescrow⟩)

/-- An insertion that succeeds was of a url that can be stored, for an escrow that exists. -/
theorem Db.insertWebhook_escrow {webhook : WebhookRow} (h : db.insertWebhook webhook = .ok db') :
    storable webhook.url = true ∧ (db.escrows.find? webhook.escrowId).isSome = true := by
  unfold Db.insertWebhook at h
  split_ifs at h with hurl hold hescrow
  exact ⟨by simpa using hurl, hescrow⟩

/-- An insertion of a url that can be stored. -/
theorem OwnRows.exec_insertWebhook (v : OwnRows) {webhook : WebhookRow}
    (hurl : storable webhook.url = true) : v.exec (.insertWebhook webhook) =
      if (v.escrows.find? webhook.escrowId).isSome then
        (.ok webhook, { v with webhooks := v.webhooks ++ [webhook] })
      else (.error .foreignKey, v) := by
  rw [OwnRows.exec, hurl]
  rfl

/-- Reading an escrow. -/
theorem own_getEscrow {e : Int64} {r : Except SqlError (Query.getEscrow e).Reply}
    (h : SqlStep faulty (.getEscrow e) db r db') :
    (r, db'.ownRows owner) =
      (db.ownRows owner).answer (failedBy ⟨.sql (.getEscrow e), r⟩) (.sql (.getEscrow e)) := by
  cases h with
  | ok hexec =>
    obtain ⟨rfl, rfl⟩ := Prod.mk.inj (Except.ok.inj hexec)
    rfl
  | rejected hexec => cases hexec
  | fault hfault => rfl

/-- A deletion of the owner's. -/
theorem own_deleteWebhook {id : Uuid} {r : Except SqlError (Query.deleteWebhook id owner).Reply}
    (h : SqlStep faulty (.deleteWebhook id owner) db r db') :
    (r, db'.ownRows owner) = (db.ownRows owner).answer
      (failedBy ⟨.sql (.deleteWebhook id owner), r⟩) (.sql (.deleteWebhook id owner)) := by
  cases h with
  | ok hexec =>
    obtain ⟨hreply, hdb⟩ := Prod.mk.inj (Except.ok.inj hexec)
    have hany : (db.webhooks.rows.any fun w => w.id = id && w.ownerAddress = owner) =
        (db.webhooksOf owner).any fun w => w.id = id && w.ownerAddress = owner := by
      rw [Db.webhooksOf, List.any_filter]
      congr 1
      funext w
      by_cases howner : w.ownerAddress = owner
      · simp [howner]
      · simp [howner]
    refine Prod.ext (congrArg Except.ok (hreply.symm.trans hany)) ?_
    rw [← hdb]
    exact congrArg (OwnRows.mk db.escrows) (db.webhooksOf_deleteWebhook id owner owner)
  | rejected hexec => cases hexec
  | fault hfault => rfl

/-- An insertion for the owner. -/
theorem own_insertWebhook {webhook : WebhookRow}
    {r : Except SqlError (Query.insertWebhook webhook).Reply}
    (h : SqlStep faulty (.insertWebhook webhook) db r db') (howner : webhook.ownerAddress = owner)
    (hfresh : ¬ Collides ⟨.sql (.insertWebhook webhook), r⟩) :
    (r, db'.ownRows owner) = (db.ownRows owner).answer
      (failedBy ⟨.sql (.insertWebhook webhook), r⟩) (.sql (.insertWebhook webhook)) := by
  cases h with
  | ok hexec =>
    have hstep : SqlStep faulty (.insertWebhook webhook) db _ db' := .ok hexec
    obtain ⟨hreply, hins⟩ := insertWebhook_of_ok hstep
    rw [hreply]
    have hrows : db'.webhooksOf owner = _ := Db.webhooksOf_insertWebhook hins
    rw [if_pos howner] at hrows
    have hanswer : (db.ownRows owner).answer false (.sql (.insertWebhook webhook)) =
        (.ok webhook, { db.ownRows owner with webhooks := db.webhooksOf owner ++ [webhook] }) := by
      obtain ⟨hurl, hescrow⟩ := Db.insertWebhook_escrow hins
      exact ((db.ownRows owner).exec_insertWebhook hurl).trans (if_pos hescrow)
    refine Eq.trans ?_ hanswer.symm
    rw [Db.ownRows, hrows, (Db.insertWebhook_inv hins).2]
    rfl
  | rejected hexec =>
    rcases Db.insertWebhook_error (insertWebhook_of_rejected hexec) with
      ⟨rfl, hurl⟩ | rfl | ⟨rfl, hurl, hescrow⟩
    · exact (if_pos (by simp [hurl])).symm
    · exact absurd trivial hfresh
    · -- an escrow that is missing is missing for every owner
      exact (((db.ownRows owner).exec_insertWebhook hurl).trans (if_neg hescrow)).symm
  | fault hfault => rfl

/-- A list, of which the owner sees her own rows. -/
theorem own_listWebhooks {e : Int64} {rows : List WebhookRow}
    (h : SqlStep faulty (.listWebhooksForEscrow e) db (.ok rows) db') :
    db' = db ∧ (rows.filter fun w => w.ownerAddress = owner) =
      ((db.webhooksOf owner).filter fun w => w.escrowId = e).filter
        fun w => w.ownerAddress = owner := by
  obtain ⟨now, hexec⟩ := h.ok_inv
  obtain ⟨hreply, hdb⟩ := Prod.mk.inj (Except.ok.inj hexec)
  refine ⟨hdb.symm, ?_⟩
  rw [← hreply]
  change List.filter _ (List.filter _ _) = List.filter _ (List.filter _ (List.filter _ _))
  rw [List.filter_filter, List.filter_filter, List.filter_filter]
  refine List.filter_congr fun w _ => ?_
  by_cases howner : w.ownerAddress = owner
  · simp [howner]
  · simp [howner]

/-- The statements of another address leave an owner's rows alone. -/
theorem ownRows_of_other {caller : String} (hne : caller ≠ owner) {q : Query}
    {r : Except SqlError q.Reply} (h : SqlStep faulty q db r db')
    (hq : (∃ e, q = .getEscrow e) ∨ (∃ e, q = .listWebhooksForEscrow e) ∨
      (∃ id, q = .deleteWebhook id caller) ∨
      ∃ webhook, q = .insertWebhook webhook ∧ webhook.ownerAddress = caller) :
    db'.ownRows owner = db.ownRows owner := by
  rcases r with e | a
  · rw [h.error_inv.1]
  obtain ⟨now, hexec⟩ := h.ok_inv
  rcases hq with ⟨e, rfl⟩ | ⟨e, rfl⟩ | ⟨id, rfl⟩ | ⟨webhook, rfl, rfl⟩
  · rw [(Prod.mk.inj (Except.ok.inj hexec)).2]
  · rw [(Prod.mk.inj (Except.ok.inj hexec)).2]
  · rw [← (Prod.mk.inj (Except.ok.inj hexec)).2]
    refine congrArg (OwnRows.mk db.escrows) ?_
    refine (db.webhooksOf_deleteWebhook id caller owner).trans (List.filter_eq_self.mpr ?_)
    intro w hw
    have howner := (List.mem_filter.mp hw).2
    have hcaller : w.ownerAddress ≠ caller := fun heq => hne (heq.symm.trans (by simpa using howner))
    simp [hcaller]
  · obtain ⟨-, hins⟩ := insertWebhook_of_ok h
    rw [Db.ownRows, Db.webhooksOf_insertWebhook hins, if_neg hne, List.append_nil,
      (Db.insertWebhook_inv hins).2]
    rfl

end Statements

/-! ### Noninterference -/

section Noninterference

variable {E : Env}

/-- Whether a request is the owner's. -/
def UserRequest.isOf (owner : String) (u : UserRequest) : Bool := u.address = owner

/-- The endpoints on a database where ids never collide. -/
def Env.fresh (E : Env) : Handler Service (World E) :=
  fun op w r w' => E.unordered op w r w' ∧ ¬ Collides ⟨op, r⟩

/-- The same reply lets a program go on the same way. -/
private theorem alike_of_eq {op : ServiceOp} {k : op.Reply → ApiM WebhookResponse} {r : op.Reply}
    {v : OwnRows} {answer : op.Reply × OwnRows} (h : (r, v) = answer) :
    v = answer.2 ∧ Alike (k r) (k answer.1) := by
  rw [← h]
  exact ⟨rfl, .refl _⟩

/-- **Each owner has the table to herself.** -/
theorem unwinding (E : Env) (owner : String) :
    Unwinding E.fresh UserRequest.serve (UserRequest.isOf owner)
      (fun w => w.db.ownRows owner) failedBy OwnRows.answer
      (fun u p => Confined u.address p) Alike where
  start := confined_serve
  next := by
    intro u op k h r
    cases h with
    | getEscrow h => exact h r
    | insert _ h => exact h r
    | delete h => exact h r
    | list _ h => exact h r
  refl := .refl
  call := by
    intro op k q h
    cases h with
    | refl => rfl
  finished := by
    intro p q h hp
    cases h with
    | refl => exact hp
    | listed _ => trivial
  others := by
    -- what another address inserts or deletes carries that address as its owner
    intro u op k w w' r hother hconf hop
    have hne : u.address ≠ owner := by simpa [UserRequest.isOf] using hother
    cases hconf with
    | getEscrow _ => exact ownRows_of_other hne hop.1.1 (Or.inl ⟨_, rfl⟩)
    | insert hw _ =>
      exact ownRows_of_other hne hop.1.1 (Or.inr (Or.inr (Or.inr ⟨_, rfl, hw⟩)))
    | delete _ => exact ownRows_of_other hne hop.1.1 (Or.inr (Or.inr (Or.inl ⟨_, rfl⟩)))
    | list _ _ =>
      obtain ⟨⟨r₀, hop, -⟩, -⟩ := hop
      exact ownRows_of_other hne hop.1 (Or.inr (Or.inl ⟨_, rfl⟩))
  own := by
    intro u op k w w' r hmine hconf hop
    obtain rfl : u.address = owner := by simpa [UserRequest.isOf] using hmine
    cases hconf with
    | getEscrow _ => exact alike_of_eq (own_getEscrow hop.1.1)
    | insert hw _ => exact alike_of_eq (own_insertWebhook hop.1.1 hw hop.2)
    | delete _ => exact alike_of_eq (own_deleteWebhook hop.1.1)
    | list hblind _ =>
      obtain ⟨⟨r₀, hop, hr⟩, -⟩ := hop
      rcases r₀ with e | rows
      · -- a list is only ever failed by the connection
        obtain ⟨hdb, ⟨now, hexec⟩ | ⟨-, rfl⟩⟩ := hop.1.error_inv
        · cases hexec
        · rw [hr]
          exact ⟨congrArg (Db.ownRows · u.address) hdb, .refl _⟩
      · obtain ⟨rows', rfl, hperm⟩ := hr
        obtain ⟨hdb, hrows⟩ : w'.db = w.db ∧
            (rows.filter fun w => w.ownerAddress = u.address) = _ := own_listWebhooks hop.1
        exact ⟨congrArg (Db.ownRows · u.address) hdb,
          hblind _ _ ((hperm.filter _).trans (List.Perm.of_eq hrows))⟩

/-- A deletion by an address that has no webhook of the id, be it another owner's or nobody's,
deletes nothing. -/
theorem deleteWebhook_of_notOwn {db : Db} {id : Uuid} {caller : String}
    (h : ∀ w ∈ db.webhooks.rows, w.id = id → w.ownerAddress ≠ caller) :
    db.deleteWebhook id caller = (false, db) := by
  have hnone : ∀ w ∈ db.webhooks.rows,
      ¬ (decide (w.id = id) && decide (w.ownerAddress = caller)) = true := by
    intro w hw heq
    obtain ⟨hid, howner⟩ := Bool.and_eq_true_iff.mp heq
    exact h w hw (of_decide_eq_true hid) (of_decide_eq_true howner)
  refine Prod.ext (List.any_eq_false.mpr hnone) ?_
  have hdelete : (db.webhooks.delete fun w => w.id = id && w.ownerAddress = caller) =
      db.webhooks := Table.delete_eq_self fun w hw => Bool.eq_false_of_not_eq_true (hnone w hw)
  obtain ⟨escrows, milestones, disputes, webhooks, cursor, hm, hd, hw⟩ := db
  simp only [Db.deleteWebhook, hdelete]

/-- The statement of such a deletion finds nothing to delete, or the connection fails it. -/
theorem sqlStep_delete_of_notOwn {faulty : Query → Prop} {db db' : Db} {id : Uuid}
    {caller : String} {r : Except SqlError Bool} (h : SqlStep faulty (.deleteWebhook id caller) db r db')
    (hown : ∀ x ∈ db.webhooks.rows, x.id = id → x.ownerAddress ≠ caller) :
    db' = db ∧ (r = .ok false ∨ r = .error .transient) := by
  rcases r with err | deleted
  · obtain ⟨hdb, ⟨now, hexec⟩ | ⟨-, rfl⟩⟩ := h.error_inv
    · cases hexec
    · exact ⟨hdb, Or.inr rfl⟩
  · obtain ⟨now, hexec⟩ := h.ok_inv
    rw [Query.exec, deleteWebhook_of_notOwn hown] at hexec
    obtain ⟨hdeleted, hdb⟩ := Prod.mk.inj (Except.ok.inj hexec)
    exact ⟨hdb.symm, Or.inl (congrArg Except.ok hdeleted.symm)⟩

/-- A deletion of a webhook that is not the caller's ends as that of one that does not exist. -/
theorem runs_delete_of_notOwn {w w' : World E} {e : Int64} {id : Uuid} {caller : String}
    {tr : Service.Trace} {q : ApiM WebhookResponse}
    (h : Runs E.unordered ((WebhookRequest.delete e id).serve caller) w tr q w')
    (hown : ∀ x ∈ w.db.webhooks.rows, x.id = id → x.ownerAddress ≠ caller) (hq : q.Finished) :
    w' = w ∧ ((∀ a ∈ tr, failedBy a = false) → q = .fail .notFound) := by
  rw [serve_delete] at h
  obtain ⟨r, w₁, tr', hop, rfl, hrest⟩ := h.call_inv_of_ne fun heq => by rw [heq] at hq; exact hq
  obtain ⟨hstep, hrpc⟩ := hop
  obtain ⟨hdb, rfl | rfl⟩ := sqlStep_delete_of_notOwn hstep hown
  · obtain ⟨-, rfl, rfl⟩ := hrest.fail_inv
    exact ⟨World.eq_of hdb hrpc, fun _ => rfl⟩
  · obtain ⟨-, rfl, rfl⟩ := hrest.fail_inv
    refine ⟨World.eq_of hdb hrpc, fun hcalm => ?_⟩
    exact absurd (hcalm _ List.mem_cons_self) (by simp [failedBy])

/-- Two runs in which an owner does the same, from stores with the same escrows and the same
webhooks of hers: the same requests, with what was drawn for them, handled in the same order,
all of them to their end, of whose statements the connection fails the same. -/
structure SameFor (owner : String) (w₁ w₂ : World E) (hist₁ hist₂ : Service.History)
    (ts₁ ts₂ : List (UserRequest × ApiM WebhookResponse)) : Prop where
  escrows : w₁.db.escrows = w₂.db.escrows
  webhooks : w₁.db.webhooksOf owner = w₂.db.webhooksOf owner
  requests : (ts₁.map Prod.fst).filter (UserRequest.isOf owner) =
    (ts₂.map Prod.fst).filter (UserRequest.isOf owner)
  order : SameOrder (ownSchedule (UserRequest.isOf owner) (ts₁.map Prod.fst) hist₁)
    (ownSchedule (UserRequest.isOf owner) (ts₂.map Prod.fst) hist₂)
  failures : ∃ failed : ℕ × ℕ → Bool,
    (∀ a ∈ ownAnswers (UserRequest.isOf owner) (ts₁.map Prod.fst) hist₁,
      failedBy a.2 = failed a.1) ∧
    ∀ a ∈ ownAnswers (UserRequest.isOf owner) (ts₂.map Prod.fst) hist₂, failedBy a.2 = failed a.1
  ended₁ : ∀ t ∈ ts₁, UserRequest.isOf owner t.1 = true → t.2.Finished
  ended₂ : ∀ t ∈ ts₂, UserRequest.isOf owner t.1 = true → t.2.Finished

/-- **Users of the webhook endpoints do not interfere.** Two runs in which an owner does the
same and ids never collide answer her the same, lists in any order, and leave the same
webhooks of hers, whatever the others do in each. A deletion of another owner's webhook is
answered as one of a webhook that does not exist, and changes nothing. -/
theorem webhooks_noninterference {owner : String} {w₁ w₁' w₂ w₂' : World E}
    {hist₁ hist₂ : Service.History} {ts₁ ts₂ : List (UserRequest × ApiM WebhookResponse)}
    (h₁ : WebhookRun E w₁ hist₁ ts₁ w₁') (h₂ : WebhookRun E w₂ hist₂ ts₂ w₂')
    (hfresh₁ : ∀ a ∈ hist₁, ¬ Collides a.2) (hfresh₂ : ∀ a ∈ hist₂, ¬ Collides a.2)
    (h : SameFor owner w₁ w₂ hist₁ hist₂ ts₁ ts₂) :
    List.Forall₂ (fun t₁ t₂ => Alike t₁.2 t₂.2) (ownRequests (UserRequest.isOf owner) ts₁)
      (ownRequests (UserRequest.isOf owner) ts₂) ∧
    w₁'.db.webhooksOf owner = w₂'.db.webhooksOf owner ∧
    ∀ (w w' : World E) e id tr q,
      (∀ x ∈ w.db.webhooks.rows, x.id = id → x.ownerAddress ≠ owner) →
      Runs E.unordered ((WebhookRequest.delete e id).serve owner) w tr q w' → q.Finished →
        w' = w ∧ ((∀ a ∈ tr, failedBy a = false) → q = .fail .notFound) := by
  have : Inhabited WebhookResponse := ⟨.deleted⟩
  obtain ⟨failed, hfailed₁, hfailed₂⟩ := h.failures
  have hview : w₁.db.ownRows owner = w₂.db.ownRows owner := by
    rw [Db.ownRows, Db.ownRows, h.escrows, h.webhooks]
  have hruns₁ : Serves E.fresh UserRequest.serve w₁ hist₁ ts₁ w₁' :=
    h₁.strengthen (P := fun a => ¬ Collides a) hfresh₁
  have hruns₂ : Serves E.fresh UserRequest.serve w₂ hist₂ ts₂ w₂' :=
    h₂.strengthen (P := fun a => ¬ Collides a) hfresh₂
  obtain ⟨hrows, hanswers⟩ := (unwinding E owner).noninterference hruns₁ hruns₂ hview h.requests
    h.order hfailed₁ hfailed₂ h.ended₁ h.ended₂
  refine ⟨hanswers.imp fun t₁ t₂ ht => ?_, congrArg OwnRows.webhooks hrows, ?_⟩
  · obtain ⟨p, hp₁, hp₂⟩ := ht
    exact hp₁.trans hp₂.symm
  · intro w w' e id tr q hown hruns hq
    exact runs_delete_of_notOwn hruns hown hq

end Noninterference

/-! ### A sample -/

section Sample

/-- What may happen may also happen where lists come in any order. -/
theorem unordered_of_handler {E : Env} {op : ServiceOp} {w w' : World E} {r : op.Reply}
    (h : E.handler op w r w') : E.unordered op w r w' := by
  cases op with
  | sql q =>
    cases q with
    | listWebhooksForEscrow e =>
      refine ⟨r, h, ?_⟩
      rcases r with err | rows
      · rfl
      · exact ⟨rows, rfl, .refl _⟩
    | _ => exact h
  | _ => exact h

/-- A list can be answered at any time. -/
theorem runs_list {E : Env} (w : World E) (e : Int64) (address : String) :
    Runs E.handler ((WebhookRequest.list e).serve address) w
      [⟨.sql (.listWebhooksForEscrow e), .ok (w.db.listWebhooksForEscrow e)⟩]
      (.done (.listed ((w.db.listWebhooksForEscrow e).filter
        fun w => w.ownerAddress = address))) w := by
  have hread : (Query.listWebhooksForEscrow e).exec 0 w.db =
      .ok (w.db.listWebhooksForEscrow e, w.db) := rfl
  have hop : E.handler (.sql (.listWebhooksForEscrow e)) w
      (.ok (w.db.listWebhooksForEscrow e)) w := ⟨.ok hread, rfl⟩
  rw [serve_list]
  exact .step hop (.refl _ _)

/-- The sample's escrow. -/
def ownedDb : Db := Db.migrated.upsertEscrow 0 (sampleEscrow sampleContract 1)

/-- A registration by a party of the sample's escrow, under the id `id`. -/
def registration (address : String) (id : Uuid) : UserRequest :=
  ⟨address, .register 1 ⟨"https://example.com/hook"⟩ ⟨id, .replicate 32 7, 0⟩⟩

/-- A list of the webhooks of the sample's escrow. -/
def listing (address : String) : UserRequest := ⟨address, .list 1⟩

/-- A client who registers a webhook and lists it is answered the same, and has the same webhook,
whether or not the provider has registered another one before. -/
theorem webhooks_noninterference_sample : ∃ w w' : World openEnv,
    w.db.webhooks.rows.length = 1 ∧ w'.db.webhooks.rows.length = 2 ∧
      w.db.webhooksOf (sampleEscrow sampleContract 1).client =
        w'.db.webhooksOf (sampleEscrow sampleContract 1).client := by
  have hescrow : ownedDb.getEscrow 1 = some ((sampleEscrow sampleContract 1).row 0) := by rfl
  have hempty : ownedDb.webhooks.rows = [] := by rfl
  -- the client alone
  obtain ⟨db, hreg, hrows, -⟩ := runs_register (E := openEnv) (w := ⟨ownedDb, ()⟩)
    ⟨"https://example.com/hook"⟩ ⟨0, .replicate 32 7, 0⟩ hescrow (Or.inl rfl) (by decide) (by decide)
    (by rfl)
  -- the client after the provider
  obtain ⟨db₁, hreg₁, hrows₁, hescrows₁⟩ := runs_register (E := openEnv) (w := ⟨ownedDb, ()⟩)
    ⟨"https://example.com/hook"⟩ ⟨1, .replicate 32 7, 0⟩ hescrow (Or.inr (Or.inl rfl)) (by decide)
    (by decide) (by rfl)
  have hescrow₁ : db₁.getEscrow 1 = some ((sampleEscrow sampleContract 1).row 0) := by
    rw [Db.getEscrow, hescrows₁]
    exact hescrow
  have hnew₁ : db₁.webhooks.find? 0 = none := by
    rw [Table.find?, hrows₁, hempty]
    rfl
  obtain ⟨db₂, hreg₂, hrows₂, -⟩ := runs_register (E := openEnv) (w := ⟨db₁, ()⟩)
    ⟨"https://example.com/hook"⟩ ⟨0, .replicate 32 7, 0⟩ hescrow₁ (Or.inl rfl) (by decide)
    (by decide) hnew₁
  have hopen : ∀ op (w : World openEnv) r w', openEnv.handler op w r w' →
      openEnv.unordered op w r w' := fun _ _ _ _ => unordered_of_handler
  have hstart : WebhookRun openEnv ⟨ownedDb, ()⟩ [] [] ⟨ownedDb, ()⟩ := .start
  have hlist := (runs_list (E := openEnv) ⟨db, ()⟩ 1 (sampleEscrow sampleContract 1).client).mono
    hopen
  have hlist₂ := (runs_list (E := openEnv) ⟨db₂, ()⟩ 1
    (sampleEscrow sampleContract 1).client).mono hopen
  have hruns := (hstart.run (x := registration _ 0) (hreg.mono hopen)).run (x := listing _) hlist
  have hruns' := ((hstart.run (x := registration _ 1) (hreg₁.mono hopen)).run
    (x := registration _ 0) (hreg₂.mono hopen)).run (x := listing _) hlist₂
  refine ⟨⟨db, ()⟩, ⟨db₂, ()⟩, by rw [hrows, hempty]; rfl, by rw [hrows₂, hrows₁, hempty]; rfl, ?_⟩
  refine (webhooks_noninterference hruns hruns' ?_ ?_ ?_).2.1
  · simp [Collides]
  · simp [Collides]
  -- the client does the same in both, and nothing fails
  constructor
  · rfl
  · rfl
  · rfl
  · refine sameOrder_of_pairwise ?_ ?_
    · change List.Pairwise _ [0, 0, 1]
      decide
    · change List.Pairwise _ [0, 0, 1]
      decide
  · refine ⟨fun _ => false, fun a ha => ?_, fun a ha => ?_⟩
    · obtain ⟨e, he, heq⟩ := exists_of_mem_ownAnswers ha
      rw [← heq]
      revert e
      simp [failedBy]
    · obtain ⟨e, he, heq⟩ := exists_of_mem_ownAnswers ha
      rw [← heq]
      revert e
      simp [failedBy]
  · intro t ht _
    revert t
    simp [Prog.Finished]
  · intro t ht _
    revert t
    simp [Prog.Finished]

end Sample

end ConcordBackend
